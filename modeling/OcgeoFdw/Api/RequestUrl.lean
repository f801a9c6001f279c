import OcgeoFdw.Api.Request
import OcgeoFdw.Foundation.Decimals
import OcgeoFdw.Foundation.QueryStrings

/-! # The URL of a request, read back

The parameters that the URL of a request carries, in their order, and that splitting and decoding
the URL gives exactly these: whatever bytes the query consists of, it adds, removes and alters no
other parameter. -/

namespace OcgeoFdw

open CString CInt QueryString

/-! ## The parameters of a request -/

/-- The parameters that are set besides the query, in their order. The country, the road information
and the proximity are only sent with a forward request. -/
def otherParameters (api_key : CString) (is_fwd : Bool) (params : OcgeoParams) :
    List (CString × CString) :=
  [(ofAscii "key", api_key)] ++
    (if is_fwd then params.countrycode.toList.map (ofAscii "countrycode", ·) else []) ++
    params.language.toList.map (ofAscii "language", ·) ++
    (if params.limit ≠ 0 then [(ofAscii "limit", showInt params.limit)] else []) ++
    (if params.min_confidence ≠ 0 then
      [(ofAscii "min_confidence", showInt params.min_confidence)] else []) ++
    [(ofAscii "no_annotations", if params.no_annotations then ofAscii "1" else ofAscii "0")] ++
    (if params.no_dedupe then [(ofAscii "no_dedupe", ofAscii "1")] else []) ++
    (if params.no_record then [(ofAscii "no_record", ofAscii "1")] else []) ++
    (if is_fwd && params.roadinfo then [(ofAscii "roadinfo", ofAscii "1")] else []) ++
    if is_fwd && ocgeoIsValidLatlng params.proximity then
      [(ofAscii "proximity", showFixed8 params.proximity.lat ++ ofAscii "," ++
        showFixed8 params.proximity.lng)]
    else []

/-- A parameter behind a `&`. -/
def ampersand (p : CString × CString) : CString := 38 :: piece p

/-- A parameter that is appended under a condition. -/
theorem ite_append_ampersand {c : Prop} [Decidable c] {url longer : CString} {p : CString × CString}
    (h : longer = url ++ ampersand p) :
    (if c then longer else url) = url ++ (if c then [p] else []).flatMap ampersand := by
  split
  · rw [h, List.flatMap_singleton]
  · rw [List.flatMap_nil, List.append_nil]

/-- **The URL** is the server, a `?` and the parameters, joined by `&`, with the query escaped. -/
theorem ocgeoServerRequestUriImpl_eq (client : WebClient) (api_key server q : CString)
    (is_fwd : Bool) (params : OcgeoParams) :
    ocgeoServerRequestUriImpl client api_key server q is_fwd params =
      server ++ 63 :: render
        ((ofAscii "q", client.curl_easy_escape q) :: otherParameters api_key is_fwd params) := by
  unfold ocgeoServerRequestUriImpl
  extract_lets start country language limit min_confidence no_annotations no_dedupe no_record
    roadinfo
  have hstart : start = server ++ 63 :: (piece (ofAscii "q", client.curl_easy_escape q) ++
      ampersand (ofAscii "key", api_key)) := by
    simp [start, ampersand, piece, ofAscii]
  have hcountry : country = start ++ (if is_fwd then
      params.countrycode.toList.map (ofAscii "countrycode", ·) else []).flatMap ampersand := by
    subst country
    clear_value start
    cases is_fwd with
    | false => simp
    | true => cases params.countrycode <;> simp [ampersand, piece, ofAscii]
  have hlanguage : language = country ++
      (params.language.toList.map (ofAscii "language", ·)).flatMap ampersand := by
    subst language
    clear_value country
    cases params.language <;> simp [ampersand, piece, ofAscii]
  have hlimit : limit = language ++ (if params.limit ≠ 0 then
      [(ofAscii "limit", showInt params.limit)] else []).flatMap ampersand :=
    ite_append_ampersand (by simp [ampersand, piece, ofAscii])
  have hconfidence : min_confidence = limit ++ (if params.min_confidence ≠ 0 then
      [(ofAscii "min_confidence", showInt params.min_confidence)] else []).flatMap ampersand := by
    subst min_confidence
    clear_value limit
    rw [OcgeoParams.sentMinConfidence]
    by_cases hzero : params.min_confidence = 0 <;> simp [hzero, ampersand, piece, ofAscii]
  have hannotations : no_annotations = min_confidence ++ [(ofAscii "no_annotations",
      if params.no_annotations then ofAscii "1" else ofAscii "0")].flatMap ampersand := by
    have hzero : showInt 0 = ofAscii "0" := rfl
    have hone : showInt 1 = ofAscii "1" := rfl
    subst no_annotations
    clear_value min_confidence
    cases params.no_annotations <;> simp [hzero, hone, ampersand, piece, ofAscii]
  have hdedupe : no_dedupe = no_annotations ++ (if params.no_dedupe then
      [(ofAscii "no_dedupe", ofAscii "1")] else []).flatMap ampersand :=
    ite_append_ampersand rfl
  have hrecord : no_record = no_dedupe ++ (if params.no_record then
      [(ofAscii "no_record", ofAscii "1")] else []).flatMap ampersand :=
    ite_append_ampersand rfl
  have hroad : roadinfo = no_record ++ (if is_fwd && params.roadinfo then
      [(ofAscii "roadinfo", ofAscii "1")] else []).flatMap ampersand :=
    ite_append_ampersand rfl
  rw [ite_append_ampersand (p := (ofAscii "proximity", showFixed8 params.proximity.lat ++
    ofAscii "," ++ showFixed8 params.proximity.lng)) (by simp [ampersand, piece, ofAscii]),
    hroad, hrecord, hdedupe, hannotations, hconfidence, hlimit, hlanguage, hcountry, hstart,
    render_cons]
  simp only [otherParameters, ← ampersand.eq_def, List.flatMap_append, List.flatMap_singleton]
  simp only [List.append_assoc, List.cons_append]

/-! ## Reading the URL back -/

/-- The characters that would be read as something else: `?`, `&`, `=`, `#`, `%`, `+` and the
space. -/
def urlReserved : CString := ofAscii "?&=#%+ "

/-- A text without such a character. -/
def UrlPlain (s : CString) : Prop := ∀ c ∈ s, c ∉ urlReserved

instance (s : CString) : Decidable (UrlPlain s) := List.decidableBAll (· ∉ urlReserved) s

/-- Concatenation keeps a text plain. -/
theorem UrlPlain.append {s t : CString} (hs : UrlPlain s) (ht : UrlPlain t) : UrlPlain (s ++ t) := by
  intro c hc
  rcases List.mem_append.mp hc with hc | hc
  · exact hs c hc
  · exact ht c hc

/-- Decimal characters are plain. -/
theorem urlPlain_of_decimal {s : CString} (h : ∀ c ∈ s, 48 ≤ c.toNat ∧ c.toNat ≤ 57) :
    UrlPlain s := by
  have hnone : (urlReserved.all fun c => decide (¬ (48 ≤ c.toNat ∧ c.toNat ≤ 57))) = true := by
    decide
  intro c hc hreserved
  exact of_decide_eq_true (List.all_eq_true.mp hnone c hreserved) (h c hc)

/-- A decimal integer is plain. -/
theorem urlPlain_showInt (n : ℤ) : UrlPlain (showInt n) := by
  rw [showInt]
  rw [ofAscii_toString_int]
  split
  · exact urlPlain_of_decimal fun c hc => of_mem_toString_nat hc
  · exact UrlPlain.append (s := [45]) (by decide)
      (urlPlain_of_decimal fun c hc => of_mem_toString_nat hc)

/-- A coordinate is plain. -/
theorem urlPlain_showFixed8 (x : ℚ) : UrlPlain (showFixed8 x) := by
  have hdecimal : ∀ n : ℕ, UrlPlain (ofAscii (toString n)) := fun n =>
    urlPlain_of_decimal fun c hc => of_mem_toString_nat hc
  have hzeros : ∀ n : ℕ, UrlPlain (List.replicate n 48) := fun n =>
    urlPlain_of_decimal fun c hc => by
      rw [List.eq_of_mem_replicate hc]
      decide
  rw [showFixed8]
  refine ((((UrlPlain.append ?_ (hdecimal _)).append (by decide)).append (hzeros _)).append
    (hdecimal _))
  split
  · decide
  · decide

/-- A plain text has no reserved character. -/
theorem UrlPlain.not_mem {s : CString} {c : UInt8} (h : UrlPlain s) (hc : c ∈ urlReserved) :
    c ∉ s :=
  fun hmem => h c hmem hc

/-- A parameter that is only set under a condition. -/
theorem not_mem_ite {q : Prop} [Decidable q] {c : UInt8} {name value : CString} (hname : c ∉ name)
    (hvalue : c ∉ value) : ∀ p ∈ if q then [(name, value)] else [], c ∉ p.1 ∧ c ∉ p.2 := by
  split
  · intro p hp
    rw [List.mem_singleton.mp hp]
    exact ⟨hname, hvalue⟩
  · simp

/-- A parameter that is only set if its value is. -/
theorem not_mem_toList {c : UInt8} {name : CString} {value : Option CString} (hname : c ∉ name)
    (hvalue : ∀ text, value = some text → c ∉ text) :
    ∀ p ∈ value.toList.map (name, ·), c ∉ p.1 ∧ c ∉ p.2 := by
  intro p hp
  obtain ⟨text, hset, rfl⟩ := List.mem_map.mp hp
  exact ⟨hname, hvalue text (Option.mem_toList.mp hset)⟩

/-- A reserved character is in none of the parameters besides the query, if it is not in the texts
that they are set to. -/
theorem not_mem_otherParameters {c : UInt8} (hc : c ∈ urlReserved) {api_key : CString}
    {is_fwd : Bool} {params : OcgeoParams} (hkey : c ∉ api_key)
    (hcountry : ∀ countrycode, params.countrycode = some countrycode → c ∉ countrycode)
    (hlanguage : ∀ language, params.language = some language → c ∉ language) :
    ∀ p ∈ otherParameters api_key is_fwd params, c ∉ p.1 ∧ c ∉ p.2 := by
  have hplain : ∀ {s : CString}, UrlPlain s → c ∉ s := fun h => h.not_mem hc
  rw [otherParameters]
  simp only [List.forall_mem_append, List.forall_mem_singleton]
  refine ⟨⟨⟨⟨⟨⟨⟨⟨⟨?_, ?_⟩, ?_⟩, ?_⟩, ?_⟩, ?_⟩, ?_⟩, ?_⟩, ?_⟩, ?_⟩
  · exact ⟨hplain (by decide), hkey⟩
  · split
    · exact not_mem_toList (hplain (by decide)) hcountry
    · simp
  · exact not_mem_toList (hplain (by decide)) hlanguage
  · exact not_mem_ite (hplain (by decide)) (hplain (urlPlain_showInt _))
  · exact not_mem_ite (hplain (by decide)) (hplain (urlPlain_showInt _))
  · refine ⟨hplain (by decide), ?_⟩
    split
    · exact hplain (by decide)
    · exact hplain (by decide)
  · exact not_mem_ite (hplain (by decide)) (hplain (by decide))
  · exact not_mem_ite (hplain (by decide)) (hplain (by decide))
  · exact not_mem_ite (hplain (by decide)) (hplain (by decide))
  · exact not_mem_ite (hplain (by decide))
      (hplain (((urlPlain_showFixed8 _).append (by decide)).append (urlPlain_showFixed8 _)))

/-- **The URL, read back.** Whatever the bytes of the query, splitting the URL at its first `?`, at
`&` and at `=`, and decoding the fields, gives exactly the query and the other parameters that are
set, in order, and the two numbers among them are read back from their texts. -/
theorem parameters_of_url {client : WebClient} {server api_key q : CString} {is_fwd : Bool}
    {params : OcgeoParams} (hescape : ∀ s, client.curl_easy_escape s = percentEncode s)
    (hserver : UrlPlain server) (hkey : UrlPlain api_key)
    (hcountry : ∀ countrycode, params.countrycode = some countrycode → UrlPlain countrycode)
    (hlanguage : ∀ language, params.language = some language → UrlPlain language) :
    parameters (ocgeoServerRequestUriImpl client api_key server q is_fwd params) =
        ((ofAscii "q", q) :: otherParameters api_key is_fwd params).map (fun p => [p.1, p.2]) ∧
      ∀ n ∈ [params.limit, params.min_confidence], intMin ≤ n → n ≤ intMax →
        atoi (showInt n) = n := by
  refine ⟨?_, fun n _ hlow hhigh => atoi_toString hlow hhigh⟩
  have hothers : ∀ p ∈ otherParameters api_key is_fwd params, ∀ c ∈ urlReserved,
      c ∉ p.1 ∧ c ∉ p.2 := fun p hp c hc =>
    not_mem_otherParameters hc (hkey.not_mem hc) (fun text h => (hcountry text h).not_mem hc)
      (fun text h => (hlanguage text h).not_mem hc) p hp
  rw [ocgeoServerRequestUriImpl_eq, hescape,
    parameters_render (fun hmem => hserver 63 hmem (by decide)) (List.cons_ne_nil _ _)]
  · have hname : percentDecode (ofAscii "q") = ofAscii "q" := rfl
    rw [List.map_cons, List.map_cons, percentDecode_percentEncode, hname]
    congr 1
    apply List.map_congr_left
    intro p hp
    obtain ⟨hpname, hpvalue⟩ := hothers p hp 37 (by decide)
    rw [percentDecode_eq_self hpname, percentDecode_eq_self hpvalue]
  · refine List.forall_mem_cons.mpr ⟨?_, ?_⟩
    -- an escaped byte is unreserved or a `%`, and neither is a separator
    · intro c hc
      rcases List.mem_append.mp hc with hc | hc
      · rw [List.mem_singleton.mp hc]
        decide
      · rcases of_mem_percentEncode hc with hunreserved | rfl
        · constructor <;> (rintro rfl; cases hunreserved)
        · decide
    · intro p hp c hc
      have hnone : ∀ d ∈ urlReserved, d ∉ p.1 ++ p.2 := fun d hd hmem =>
        (List.mem_append.mp hmem).elim (hothers p hp d hd).1 (hothers p hp d hd).2
      constructor <;> (rintro rfl; exact hnone _ (by decide) hc)

/-- A client that escapes as libcurl does and never gets a reply. -/
def offlineClient : WebClient where
  curl_easy_escape := percentEncode
  curl_easy_perform _ := none
  cJSON_Parse _ := none
  memory := .unlimited

/-- The query `a&limit=1` with the parameters of a scan. -/
theorem parameters_of_url_ampersand :
    parameters (ocgeoServerRequestUriImpl offlineClient (ofAscii "k") (ofAscii "u")
        (ofAscii "a&limit=1") true { ocgeoDefaultParams with limit := 50 }) =
      ((ofAscii "q", ofAscii "a&limit=1") :: otherParameters (ofAscii "k") true
        { ocgeoDefaultParams with limit := 50 }).map (fun p => [p.1, p.2]) ∧
      ∀ n ∈ [(50 : ℤ), 0], intMin ≤ n → n ≤ intMax → atoi (showInt n) = n :=
  parameters_of_url (fun _ => rfl) (by decide) (by decide) (by simp [ocgeoDefaultParams])
    (by simp [ocgeoDefaultParams])

end OcgeoFdw
