import OcgeoFdw.Api.RequestUrl
import OcgeoFdw.Foundation.FixedPoint

/-! # Coordinates in a request

A reverse request sends its point as the query, a forward request the point to prefer as the
parameter `proximity`, both with eight decimals. `request_coordinates` states what the server reads
of them: it gets the URL without its fragment. -/

namespace OcgeoFdw

open CString QueryString

/-! ## The text of a point -/

/-- The text with `k` decimals of two coordinates. -/
def coordinateText (k : ℕ) (coords : OcgeoLatlng) : CString :=
  showFixed k coords.lat ++ 44 :: showFixed k coords.lng

/-- A text at a comma is two numerals, of the coordinates of a point. -/
def ReadsPoint (text : CString) (point : OcgeoLatlng) : Prop :=
  ∃ slat slng nlat nlng, text.splitOn 44 = [slat, slng] ∧
    IsNumeral slat nlat ∧ nlat.value = point.lat ∧ IsNumeral slng nlng ∧ nlng.value = point.lng

/-- A point is rounded at the `k`-th decimal of its coordinates. -/
structure RoundsPoint (k : ℕ) (coords point : OcgeoLatlng) : Prop where
  lat : IsRounded k coords.lat point.lat
  lng : IsRounded k coords.lng point.lng

/-- Rounding does not leave the ranges of the coordinates. -/
theorem RoundsPoint.isValid {k : ℕ} {coords point : OcgeoLatlng} (h : RoundsPoint k coords point)
    (hvalid : ocgeoIsValidLatlng coords = true) : ocgeoIsValidLatlng point = true := by
  simp only [ocgeoIsValidLatlng, Bool.and_eq_true, decide_eq_true_eq] at hvalid ⊢
  obtain ⟨⟨⟨hsouth, hnorth⟩, hwest⟩, heast⟩ := hvalid
  exact ⟨⟨⟨by exact_mod_cast h.lat.above (-90) (by exact_mod_cast hsouth),
    by exact_mod_cast h.lat.below 90 (by exact_mod_cast hnorth)⟩,
    by exact_mod_cast h.lng.above (-180) (by exact_mod_cast hwest)⟩,
    by exact_mod_cast h.lng.below 180 (by exact_mod_cast heast)⟩

/-- A comma is no character of numerals, and neither is a parenthesis. -/
theorem not_isNumeralByte {c : UInt8} (h : c = 44 ∨ c = 40 ∨ c = 41) : ¬ IsNumeralByte c := by
  unfold IsNumeralByte
  rcases h with rfl | rfl | rfl <;> decide

/-- The bytes of the text of a point. -/
theorem of_mem_coordinateText {k : ℕ} (hk : 0 < k) {coords : OcgeoLatlng} {c : UInt8}
    (h : c ∈ coordinateText k coords) : c = 44 ∨ IsNumeralByte c := by
  rcases List.mem_append.mp h with hlat | hrest
  · exact .inr ((spells_showFixed hk coords.lat).isNumeralByte c hlat)
  · rcases List.mem_cons.mp hrest with hcomma | hlng
    · exact .inl hcomma
    · exact .inr ((spells_showFixed hk coords.lng).isNumeralByte c hlng)

/-- **A point is read back** rounded. -/
theorem readsPoint_coordinateText {k : ℕ} (hk : 0 < k) (coords : OcgeoLatlng) :
    ∃ point, ReadsPoint (coordinateText k coords) point ∧ RoundsPoint k coords point := by
  have hlat := spells_showFixed hk coords.lat
  have hlng := spells_showFixed hk coords.lng
  have hcomma : ∀ {text : CString} {x : ℚ}, Spells k text x → (44 : UInt8) ∉ text :=
    fun h hmem => not_isNumeralByte (.inl rfl) (h.isNumeralByte 44 hmem)
  have hsplit : (coordinateText k coords).splitOn 44 =
      [showFixed k coords.lat, showFixed k coords.lng] := by
    rw [coordinateText, List.splitOn_append_cons_self, List.splitOn_eq_singleton (hcomma hlat),
      List.splitOn_eq_singleton (hcomma hlng)]
    rfl
  obtain ⟨nlat, hlatNumeral, hlatRounded⟩ := hlat
  obtain ⟨nlng, hlngNumeral, hlngRounded⟩ := hlng
  exact ⟨⟨nlat.value, nlng.value⟩,
    ⟨_, _, nlat, nlng, hsplit, hlatNumeral, rfl, hlngNumeral, rfl⟩, hlatRounded, hlngRounded⟩

/-! ## Requests -/

/-- `%.8F,%.8F` has eight decimals. -/
theorem showFixed8_comma (coords : OcgeoLatlng) :
    showFixed8 coords.lat ++ ofAscii "," ++ showFixed8 coords.lng = coordinateText 8 coords :=
  List.append_assoc (showFixed8 coords.lat) [44] (showFixed8 coords.lng)

section Requests

variable {client : WebClient} {api : OcgeoApi} {ok : Bool} {response response' : OcgeoResponse}

/-- The text of a point is plain. -/
theorem urlPlain_coordinateText (coords : OcgeoLatlng) : UrlPlain (coordinateText 8 coords) :=
  (urlPlain_showFixed8 coords.lat).append
    (UrlPlain.append (s := [44]) (by decide) (urlPlain_showFixed8 coords.lng))

/-- A server address without `?` and `#`. -/
def OcgeoApi.PlainServer (api : OcgeoApi) : Prop := 63 ∉ api.server ∧ 35 ∉ api.server

/-- **A reverse request** sends its point, whatever the key and the other parameters are. -/
theorem reverse_sends (hescape : ∀ s, client.curl_easy_escape s = percentEncode s)
    (hserver : api.PlainServer) {coords : OcgeoLatlng} {params : Option OcgeoParams}
    (h : ocgeoReverse client api coords.lat coords.lng params (some response) =
      .ok (ok, some response')) :
    ∃ url, response'.url = some url ∧ (parameters (withoutFragment url)).head? =
      some [ofAscii "q", coordinateText 8 coords] := by
  refine ⟨_, url_of_doRequest h, ?_⟩
  set p := (ofAscii "q", percentEncode (coordinateText 8 coords)) with hp
  have hescaped : ∀ c ∈ p.1 ++ p.2, c ≠ 38 ∧ c ≠ 61 ∧ c ≠ 35 := by
    intro c hc
    rcases List.mem_append.mp hc with hc | hc
    · rw [List.mem_singleton.mp hc]
      decide
    · obtain ⟨hamp, heq⟩ := ne_of_mem_percentEncode hc
      exact ⟨hamp, heq, hash_ne_of_mem_percentEncode hc⟩
  -- the point stands in front of everything that may have a fragment
  obtain ⟨rest, hrest⟩ : ∃ rest, ocgeoServerRequestUriImpl client api.api_key api.server
      (showFixed8 coords.lat ++ ofAscii "," ++ showFixed8 coords.lng) false
        (params.getD ocgeoDefaultParams) = api.server ++ 63 :: (piece p ++ 38 :: rest) := by
    rw [ocgeoServerRequestUriImpl_eq, hescape, showFixed8_comma, render_cons]
    exact ⟨_, rfl⟩
  have hfront : 35 ∉ api.server ++ 63 :: (piece p ++ [38]) := by
    rw [piece]
    simp only [List.mem_append, List.mem_cons, List.not_mem_nil, or_false]
    rintro (hmem | heq | (hmem | heq | hmem) | heq)
    · exact hserver.2 hmem
    · cases heq
    · exact (hescaped 35 (List.mem_append_left _ hmem)).2.2 rfl
    · cases heq
    · exact (hescaped 35 (List.mem_append_right _ hmem)).2.2 rfl
    · cases heq
  have hsplit : api.server ++ 63 :: (piece p ++ 38 :: rest) =
      api.server ++ 63 :: (piece p ++ [38]) ++ rest := by simp
  have hsent : withoutFragment (api.server ++ 63 :: (piece p ++ 38 :: rest)) =
      api.server ++ 63 :: (piece p ++ 38 :: withoutFragment rest) := by
    rw [hsplit, withoutFragment_append hfront]
    simp
  rw [hrest, hsent, head?_parameters _ hserver.1 fun c hc => ⟨(hescaped c hc).1, (hescaped c hc).2.1⟩,
    hp, percentDecode_percentEncode]
  rfl

/-- **A forward request** sends a valid point to prefer, if no text in the URL has a `#`. -/
theorem forward_sends (hescape : ∀ s, client.curl_easy_escape s = percentEncode s)
    (hserver : api.PlainServer) (hkey : 35 ∉ api.api_key) {q : CString} {params : OcgeoParams}
    (hcountry : ∀ countrycode, params.countrycode = some countrycode → 35 ∉ countrycode)
    (hlanguage : ∀ language, params.language = some language → 35 ∉ language)
    (hvalid : ocgeoIsValidLatlng params.proximity = true)
    (h : ocgeoForward client api q (some params) (some response) = .ok (ok, some response')) :
    ∃ url, response'.url = some url ∧ (parameters (withoutFragment url)).getLast? =
      some [ofAscii "proximity", coordinateText 8 params.proximity] := by
  refine ⟨_, url_of_doRequest h, ?_⟩
  have hplain : UrlPlain (coordinateText 8 params.proximity) := urlPlain_coordinateText _
  have hname : UrlPlain (ofAscii "proximity") := by decide
  have hfree : 35 ∉ api.server ++ 63 :: render ((ofAscii "q", percentEncode q) ::
      otherParameters api.api_key true params) := by
    have hrender : 35 ∉ render ((ofAscii "q", percentEncode q) ::
        otherParameters api.api_key true params) :=
      not_mem_render (by decide) (by decide) (List.forall_mem_cons.mpr
        ⟨⟨(by decide : 35 ∉ ofAscii "q"), fun hmem => hash_ne_of_mem_percentEncode hmem rfl⟩,
          not_mem_otherParameters (by decide) hkey hcountry hlanguage⟩)
    rw [List.mem_append, List.mem_cons]
    rintro (hmem | heq | hmem)
    · exact hserver.2 hmem
    · cases heq
    · exact hrender hmem
  have hproximity : ∃ others, (ofAscii "q", percentEncode q) ::
      otherParameters api.api_key true params =
        others ++ [(ofAscii "proximity", coordinateText 8 params.proximity)] := by
    have hlast : (true && ocgeoIsValidLatlng params.proximity) = true := by rw [hvalid]; rfl
    rw [otherParameters, if_pos hlast, showFixed8_comma]
    exact ⟨_ :: _, rfl⟩
  obtain ⟨others, hothers⟩ := hproximity
  rw [Option.getD_some, ocgeoServerRequestUriImpl_eq, hescape, withoutFragment_eq_self hfree, hothers,
    getLast?_parameters _ hserver.1 fun c hc => ?_,
    percentDecode_eq_self fun hmem => hplain 37 hmem (by decide)]
  · rfl
  · constructor <;> (rintro rfl; exact (hname.append hplain) _ hc (by decide))

end Requests

end OcgeoFdw
