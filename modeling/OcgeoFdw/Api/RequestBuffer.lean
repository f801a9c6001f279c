import Mathlib.Data.List.GetD
import OcgeoFdw.Api.RequestUrl
import OcgeoFdw.Api.SdsAppends

/-! # The buffers that a URL is made in

`sdscatvprintf` formats into a buffer that it doubles until the text fits, and appends the text to a
string; `ocgeo_server_request_uri_impl` makes the URL of a request so. Up to the lengths that
`vsnprintf` can count, the URL is the text that the formats stand for. -/

namespace OcgeoFdw

open CString Sds

/-! ## The code -/

/-- `vsnprintf` counts what it writes with an `int`: neither the text nor a buffer that is doubled for
it may be longer. -/
def Formattable (text : CString) : Prop := 2 * (text.length + 2) < 2 ^ 31

instance (text : CString) : Decidable (Formattable text) := inferInstanceAs (Decidable (_ < _))

/-- The buffer after one round of the loop in `sdscatvprintf`, for a text that can be formatted: a NUL
is put at the last place but one, and `vsnprintf` writes as much of the text as fits. -/
def formatRound (text buf : CString) : CString :=
  let printed := text.take (buf.length - 1) ++ [0]
  printed ++ (buf.set (buf.length - 2) 0).drop printed.length

/-- The test of the loop: something else is at that place now. -/
def needsMore (text buf : CString) : Prop :=
  (formatRound text buf).getD (buf.length - 2) 0 ≠ 0

instance (text buf : CString) : Decidable (needsMore text buf) :=
  inferInstanceAs (Decidable (_ ≠ _))

/-- A text that fits with two places to spare is followed by its NUL. -/
theorem formatRound_of_fits {text buf : CString} (h : text.length + 2 ≤ buf.length) :
    formatRound text buf =
      text ++ 0 :: (buf.set (buf.length - 2) 0).drop (text.length + 1) := by
  rw [formatRound, List.take_of_length_le (by omega), List.append_assoc, List.length_append]
  rfl

/-- Then the last place but one is a NUL. -/
theorem not_needsMore_of_fits {text buf : CString} (h : text.length + 2 ≤ buf.length) :
    ¬ needsMore text buf := by
  have hplace : (formatRound text buf).getD (buf.length - 2) 0 = 0 := by
    rw [formatRound_of_fits h, List.getD_append_right _ _ _ _ (by omega)]
    rcases Nat.eq_or_lt_of_le (show text.length ≤ buf.length - 2 by omega) with heq | hlt
    · -- it is the NUL of the text
      rw [heq, Nat.sub_self]
      rfl
    · -- it is the NUL that was put there
      have hsucc : buf.length - 2 - text.length = (buf.length - 2 - (text.length + 1)) + 1 := by
        omega
      rw [hsucc, List.getD_cons_succ, List.getD_eq_getElem?_getD, List.getElem?_drop,
        Nat.add_sub_cancel' hlt, List.getElem?_set_self (by omega)]
      rfl
  exact fun hmore => hmore hplace

/-- Where the text does not fit, the buffer is not much larger than it, and not empty. -/
theorem length_of_needsMore {text buf : CString} (h : needsMore text buf) :
    0 < buf.length ∧ buf.length < text.length + 2 := by
  constructor
  · by_contra hempty
    obtain rfl : buf = [] := List.length_eq_zero_iff.mp (by omega)
    exact h rfl
  · by_contra hlong
    exact not_needsMore_of_fits (by omega) h

/-- A text without NULs that does not fit is seen not to. -/
theorem needsMore_of_long {text buf : CString} (hnul : ∀ c ∈ text, c ≠ 0) (hbuf : 2 ≤ buf.length)
    (h : buf.length < text.length + 2) : needsMore text buf := by
  have hplace : (formatRound text buf).getD (buf.length - 2) 0 = text[buf.length - 2] := by
    rw [formatRound, List.append_assoc, List.getD_append _ _ _ _ (by rw [List.length_take]; omega),
      List.getD_eq_getElem _ _ (by rw [List.length_take]; omega), List.getElem_take]
  rw [needsMore, hplace]
  exact hnul _ (List.getElem_mem _)

/-- The loop of `sdscatvprintf`, with a buffer twice the size in each round. -/
def formatLoop (memory : Allocator UInt8) (text buf : CString) : Except MemoryFault CString :=
  if h : needsMore text buf then
    match hmalloc : memory.malloc (buf.length * 2) with
    | none => .error .failed
    | some larger =>
        -- the buffer is shorter than the text, and it has doubled
        have := length_of_needsMore h
        have := memory.length_malloc hmalloc
        formatLoop memory text larger
  else .ok (formatRound text buf)
termination_by text.length + 2 - buf.length

/-- The first buffer: the one on the stack, or one from the heap for a long format. -/
def firstBuffer (memory : Allocator UInt8) (staticbuf fmt : CString) : Except MemoryFault CString :=
  if staticbuf.length < fmt.length * 2 then
    match memory.malloc (fmt.length * 2) with
    | none => .error .failed
    | some buf => .ok buf
  else .ok staticbuf

/-- `sdscatvprintf`, where the format makes `text` of its arguments; `staticbuf` is what happens to
be in the buffer on the stack. The buffers and the string may meet different answers of the
allocator. -/
def sdscatvprintf (buffers memory : Allocator UInt8) (staticbuf : CString) (s : Sds)
    (fmt text : CString) : Except MemoryFault Sds := do
  let buf ← firstBuffer buffers staticbuf fmt
  let buf ← formatLoop buffers text buf
  sdscat memory s buf

/-- `url = sdscatprintf(url, fmt, ...)`. -/
def appendFormat (buffers memory : Allocator UInt8) (staticbuf : CString) (fmt : String)
    (text : CString) : Option Sds → Except MemoryFault (Option Sds) :=
  reassign fun url => sdscatvprintf buffers memory staticbuf url (ofAscii fmt) text

/-- `url = sdscat(url, text)`. -/
def appendText (memory : Allocator UInt8) (text : String) :
    Option Sds → Except MemoryFault (Option Sds) :=
  reassign fun url => sdscat memory url (ofAscii text)

/-- `if (condition) url = ...`. -/
def appendIf (condition : Bool) (append : Option Sds → Except MemoryFault (Option Sds))
    (url : Option Sds) : Except MemoryFault (Option Sds) :=
  if condition then append url else .ok url

/-- `ocgeo_server_request_uri_impl`, with the buffers of the URL. Every append has its own answers of
the allocator. -/
def ocgeoServerRequestBuffer (buffers memory : ℕ → Allocator UInt8) (staticbuf : CString)
    (client : WebClient) (api_key server query : CString) (is_fwd : Bool) (params : OcgeoParams) :
    Except MemoryFault (Option Sds) :=
  let format (n : ℕ) (fmt : String) (text : CString) :=
    appendFormat (buffers n) (memory n) staticbuf fmt text
  let q_escaped := client.curl_easy_escape query
  orNull (sdsempty (memory 0)) >>=
    format 1 "%s?q=%s&key=%s" (server ++ ofAscii "?q=" ++ q_escaped ++ ofAscii "&key=" ++ api_key) >>=
    appendIf (is_fwd && params.countrycode.isSome)
      (format 2 "&countrycode=%s" (ofAscii "&countrycode=" ++ params.countrycode.getD [])) >>=
    appendIf params.language.isSome
      (format 3 "&language=%s" (ofAscii "&language=" ++ params.language.getD [])) >>=
    appendIf (params.limit ≠ 0)
      (format 4 "&limit=%d" (ofAscii "&limit=" ++ showInt params.limit)) >>=
    appendIf (params.min_confidence ≠ 0)
      (format 5 "&min_confidence=%d" (ofAscii "&min_confidence=" ++ showInt params.min_confidence)) >>=
    format 6 "&no_annotations=%d"
      (ofAscii "&no_annotations=" ++ showInt (if params.no_annotations then 1 else 0)) >>=
    appendIf params.no_dedupe (appendText (memory 7) "&no_dedupe=1") >>=
    appendIf params.no_record (appendText (memory 8) "&no_record=1") >>=
    appendIf (is_fwd && params.roadinfo) (appendText (memory 9) "&roadinfo=1") >>=
    appendIf (is_fwd && ocgeoIsValidLatlng params.proximity)
      (format 10 "&proximity=%.8F,%.8F" (ofAscii "&proximity=" ++
        showFixed8 params.proximity.lat ++ ofAscii "," ++ showFixed8 params.proximity.lng))

/-! ## The texts -/

variable {memory : Allocator UInt8}

/-- A text that can be formatted is far shorter than a `size_t` counts, also with the space that
`sdsMakeRoomFor` adds. -/
theorem Formattable.lt_pow {before text : CString} (h : Formattable (before ++ text)) :
    before.length + text.length + sdsMaxPrealloc + 18 < 2 ^ 64 := by
  rw [Formattable, List.length_append] at h
  have hmax : sdsMaxPrealloc = 2 ^ 20 := rfl
  omega

/-- So can a first part of it. -/
theorem Formattable.of_append {before text : CString} (h : Formattable (before ++ text)) :
    Formattable before := by
  rw [Formattable, List.length_append] at h
  rw [Formattable]
  omega

/-- **The loop ends with the whole text.** -/
theorem formatLoop_ends {text buf : CString} (hnul : ∀ c ∈ text, c ≠ 0) (hbuf : 2 ≤ buf.length) :
    (formatLoop memory text buf).Ends (untilNul · = text) memory.Fails := by
  fun_induction formatLoop memory text buf with
  | case1 buf hmore hmalloc => exact Allocator.fails_of_malloc hmalloc
  | case2 buf hmore larger hmalloc _ _ ih =>
      apply ih
      rw [memory.length_malloc hmalloc]
      omega
  | case3 buf hmore =>
      have hfits : text.length + 2 ≤ buf.length := by
        by_contra hlong
        exact hmore (needsMore_of_long hnul hbuf (by omega))
      show untilNul (formatRound text buf) = text
      rw [formatRound_of_fits hfits, untilNul_append_nul, untilNul_eq_self hnul]

/-- The first buffer has two places at least. -/
theorem firstBuffer_ends {staticbuf fmt : CString} (hstatic : staticbuf.length = 1024) :
    (firstBuffer memory staticbuf fmt).Ends (2 ≤ List.length ·) memory.Fails := by
  rw [firstBuffer]
  split_ifs with hlong
  · cases hmalloc : memory.malloc (fmt.length * 2) with
    | none => exact Allocator.fails_of_malloc hmalloc
    | some buf =>
        show 2 ≤ buf.length
        rw [memory.length_malloc hmalloc]
        omega
  · show 2 ≤ staticbuf.length
    omega

/-- **`sdscatvprintf` appends the formatted text**, or an allocation fails. -/
theorem sdscatvprintf_ends {buffers : Allocator UInt8} {staticbuf fmt text before : CString}
    {s : Sds} {alloc : ℕ} (hstatic : staticbuf.length = 1024) (hnul : ∀ c ∈ text, c ≠ 0)
    (h : s.Holds alloc before) (hsize : Formattable (before ++ text)) :
    (sdscatvprintf buffers memory staticbuf s fmt text).Ends
      (fun s' => ∃ alloc', s'.Holds alloc' (before ++ text))
      fun fault => fault = .failed ∧ ¬ (buffers.Unlimited ∧ memory.Unlimited) := by
  have hbuffer : ∀ fault, buffers.Fails fault →
      fault = .failed ∧ ¬ (buffers.Unlimited ∧ memory.Unlimited) :=
    fun fault hf => ⟨hf.1, fun hunlimited => hf.2 hunlimited.1⟩
  rw [sdscatvprintf]
  refine ((firstBuffer_ends hstatic).mono (fun _ h => h) hbuffer).bind fun buf hbuf => ?_
  refine ((formatLoop_ends hnul hbuf).mono (fun _ h => h) hbuffer).bind fun buf' hbuf' => ?_
  rw [sdscat, hbuf']
  exact (sdscatlen_ends h hsize.lt_pow).mono (fun s' hs' => ⟨_, hs'⟩)
    fun fault hf => ⟨hf.1, fun hunlimited => hf.2 hunlimited.2⟩

/-- A computation that makes a text, if the text can be formatted. -/
def Makes (x : Except MemoryFault (Option Sds)) (text : CString) : Prop :=
  Formattable text → ∃ s alloc, x = .ok (some s) ∧ s.Holds alloc text

/-- A step that appends a text. -/
def AppendsTo (append : Option Sds → Except MemoryFault (Option Sds)) (text : CString) : Prop :=
  ∀ ⦃x before⦄, Makes x before → Makes (x >>= append) (before ++ text)

/-- A function with the rule of an append is such a step, when what it fails without is there. -/
theorem appendsTo_reassign {P : Prop} (hP : P) {append : Sds → Except MemoryFault Sds}
    {text : CString}
    (happend : ∀ {s : Sds} {alloc before}, s.Holds alloc before → Formattable (before ++ text) →
      (append s).Ends (fun s' => ∃ alloc', s'.Holds alloc' (before ++ text))
        fun fault => fault = .failed ∧ ¬ P) :
    AppendsTo (reassign append) text := by
  intro x before hbefore hsize
  obtain ⟨s, alloc, rfl, hholds⟩ := hbefore (hsize.of_append)
  have hends := happend hholds hsize
  cases hresult : append s with
  | error fault =>
      rw [hresult] at hends
      exact absurd hP hends.2
  | ok s' =>
      rw [hresult] at hends
      obtain ⟨alloc', hholds'⟩ := hends
      refine ⟨s', alloc', ?_, hholds'⟩
      show orNull (append s) = _
      rw [hresult]
      rfl

/-- A formatted text is appended. -/
theorem appendFormat_appends {buffers : Allocator UInt8} (hbuffers : buffers.Unlimited)
    (hmemory : memory.Unlimited) {staticbuf text : CString} {fmt : String}
    (hstatic : staticbuf.length = 1024) (hnul : ∀ c ∈ text, c ≠ 0) :
    AppendsTo (appendFormat buffers memory staticbuf fmt text) text :=
  appendsTo_reassign ⟨hbuffers, hmemory⟩ fun h hsize => sdscatvprintf_ends hstatic hnul h hsize

/-- A literal is appended. -/
theorem appendText_appends (hmemory : memory.Unlimited) {text : String}
    (hnul : ∀ c ∈ ofAscii text, c ≠ 0) : AppendsTo (appendText memory text) (ofAscii text) := by
  apply appendsTo_reassign hmemory
  intro s alloc before h hsize
  rw [sdscat, untilNul_eq_self hnul]
  exact (sdscatlen_ends h hsize.lt_pow).mono (fun s' hs' => ⟨_, hs'⟩) fun _ hf => hf

/-- Under a condition a text is appended or not. -/
theorem AppendsTo.makes_if {append : Option Sds → Except MemoryFault (Option Sds)} {text : CString}
    (happend : AppendsTo append text) {x : Except MemoryFault (Option Sds)} {before : CString}
    (h : Makes x before) (condition : Bool) :
    Makes (x >>= appendIf condition append) (if condition then before ++ text else before) := by
  cases condition with
  | true => exact happend h
  | false =>
      intro hsize
      obtain ⟨s, alloc, rfl, hholds⟩ := h hsize
      exact ⟨s, alloc, rfl, hholds⟩

/-- A text without a NUL. -/
theorem ne_zero_of_notMem {s : CString} (h : 0 ∉ s) : ∀ c ∈ s, c ≠ 0 := by
  rintro c hc rfl
  exact h hc

/-- What is printed of a number has no NUL. -/
theorem ne_zero_of_decimal {s : CString} (h : ∀ c ∈ s, 48 ≤ c.toNat ∧ c.toNat ≤ 57) :
    ∀ c ∈ s, c ≠ 0 := by
  rintro c hc rfl
  exact absurd (h 0 hc).1 (by decide)

/-- Concatenation adds no NUL. -/
theorem ne_zero_append {s t : CString} (hs : ∀ c ∈ s, c ≠ 0) (ht : ∀ c ∈ t, c ≠ 0) :
    ∀ c ∈ s ++ t, c ≠ 0 := by
  intro c hc
  rcases List.mem_append.mp hc with hc | hc
  · exact hs c hc
  · exact ht c hc

/-- A printed integer has no NUL. -/
theorem ne_zero_of_mem_showInt (n : ℤ) : ∀ c ∈ showInt n, c ≠ 0 := by
  rw [showInt, ofAscii_toString_int]
  split
  · exact ne_zero_of_decimal fun c hc => of_mem_toString_nat hc
  · refine ne_zero_append (s := [45]) ?_ (ne_zero_of_decimal fun c hc => of_mem_toString_nat hc)
    simp

/-- A printed coordinate has no NUL. -/
theorem ne_zero_of_mem_showFixed8 (x : ℚ) : ∀ c ∈ showFixed8 x, c ≠ 0 := by
  have hdecimal : ∀ n : ℕ, ∀ c ∈ ofAscii (toString n), c ≠ 0 := fun n =>
    ne_zero_of_decimal fun c hc => of_mem_toString_nat hc
  have hzeros : ∀ n : ℕ, ∀ c ∈ List.replicate n (48 : UInt8), c ≠ 0 := by
    intro n c hc
    rw [List.eq_of_mem_replicate hc]
    decide
  have hsign : ∀ c ∈ (if x < 0 then ofAscii "-" else []), c ≠ 0 := by
    split
    · exact ne_zero_of_notMem (by decide)
    · simp
  rw [showFixed8]
  have hpoint : ∀ c ∈ ofAscii ".", c ≠ 0 := ne_zero_of_notMem (by decide)
  exact ne_zero_append (ne_zero_append (ne_zero_append (ne_zero_append hsign (hdecimal _)) hpoint)
    (hzeros _)) (hdecimal _)

section Url

variable {buffers memory : ℕ → Allocator UInt8} {staticbuf : CString} {client : WebClient}
  {api_key server query : CString} {is_fwd : Bool} {params : OcgeoParams}

/-- **The buffers of a URL hold the URL**, up to the length that `vsnprintf` can count. -/
theorem ocgeoServerRequestBuffer_makes (hbuffers : ∀ n, (buffers n).Unlimited)
    (hmemory : ∀ n, (memory n).Unlimited) (hstatic : staticbuf.length = 1024)
    (hkey : ∀ c ∈ api_key, c ≠ 0) (hserver : ∀ c ∈ server, c ≠ 0)
    (hquery : ∀ c ∈ client.curl_easy_escape query, c ≠ 0)
    (hcountry : ∀ s ∈ params.countrycode, ∀ c ∈ s, c ≠ 0)
    (hlanguage : ∀ s ∈ params.language, ∀ c ∈ s, c ≠ 0) :
    Makes
      (ocgeoServerRequestBuffer buffers memory staticbuf client api_key server query is_fwd params)
      (ocgeoServerRequestUriImpl client api_key server query is_fwd params) := by
  have hempty : Makes (orNull (sdsempty (memory 0))) [] := by
    intro hsize
    have hnew : (sdsempty (memory 0)).Ends _ (memory 0).Fails := sdsnewlen_ends (by decide)
    cases hresult : sdsempty (memory 0) with
    | error fault =>
        rw [hresult] at hnew
        exact absurd (hmemory 0) hnew.2
    | ok s =>
        rw [hresult] at hnew
        exact ⟨s, 0, rfl, hnew⟩
  unfold ocgeoServerRequestUriImpl
  extract_lets start country language limit min_confidence no_annotations no_dedupe no_record
    roadinfo
  -- from the last parameter back to the first
  have hproximity : (if is_fwd && ocgeoIsValidLatlng params.proximity then
      roadinfo ++ ofAscii "&proximity=" ++ showFixed8 params.proximity.lat ++ ofAscii "," ++
        showFixed8 params.proximity.lng else roadinfo) =
      if is_fwd && ocgeoIsValidLatlng params.proximity then
        roadinfo ++ (ofAscii "&proximity=" ++ showFixed8 params.proximity.lat ++ ofAscii "," ++
          showFixed8 params.proximity.lng) else roadinfo := by
    simp only [List.append_assoc]
  rw [hproximity]
  refine (appendFormat_appends (hbuffers _) (hmemory _) hstatic ?_).makes_if ?_ _
  · have hname : ∀ c ∈ ofAscii "&proximity=", c ≠ 0 := ne_zero_of_notMem (by decide)
    have hcomma : ∀ c ∈ ofAscii ",", c ≠ 0 := ne_zero_of_notMem (by decide)
    exact ne_zero_append (ne_zero_append (ne_zero_append hname (ne_zero_of_mem_showFixed8 _))
      hcomma) (ne_zero_of_mem_showFixed8 _)
  refine (appendText_appends (hmemory _) (ne_zero_of_notMem (by decide))).makes_if ?_ _
  refine (appendText_appends (hmemory _) (ne_zero_of_notMem (by decide))).makes_if ?_ _
  refine (appendText_appends (hmemory _) (ne_zero_of_notMem (by decide))).makes_if ?_ _
  have hannotations : no_annotations = min_confidence ++ (ofAscii "&no_annotations=" ++
      showInt (if params.no_annotations then 1 else 0)) := List.append_assoc _ _ _
  rw [hannotations]
  refine appendFormat_appends (hbuffers _) (hmemory _) hstatic ?_ ?_
  · exact ne_zero_append (ne_zero_of_notMem (by decide)) (ne_zero_of_mem_showInt _)
  have hconfidence : min_confidence = if decide (params.min_confidence ≠ 0) then
      limit ++ (ofAscii "&min_confidence=" ++ showInt params.min_confidence) else limit := by
    subst min_confidence
    clear_value limit
    rw [OcgeoParams.sentMinConfidence]
    by_cases hzero : params.min_confidence = 0 <;> simp [hzero]
  rw [hconfidence]
  refine (appendFormat_appends (hbuffers _) (hmemory _) hstatic ?_).makes_if ?_ _
  · exact ne_zero_append (ne_zero_of_notMem (by decide)) (ne_zero_of_mem_showInt _)
  have hlimit : limit = if decide (params.limit ≠ 0) then
      language ++ (ofAscii "&limit=" ++ showInt params.limit) else language := by
    subst limit
    simp
  rw [hlimit]
  refine (appendFormat_appends (hbuffers _) (hmemory _) hstatic ?_).makes_if ?_ _
  · exact ne_zero_append (ne_zero_of_notMem (by decide)) (ne_zero_of_mem_showInt _)
  have hlang : language = if params.language.isSome then
      country ++ (ofAscii "&language=" ++ params.language.getD []) else country := by
    subst language
    clear_value country
    cases params.language <;> simp
  rw [hlang]
  refine (appendFormat_appends (hbuffers _) (hmemory _) hstatic ?_).makes_if ?_ _
  · refine ne_zero_append (ne_zero_of_notMem (by decide)) ?_
    cases hset : params.language with
    | none => simp
    | some s => exact hlanguage s hset
  have hcode : country = if is_fwd && params.countrycode.isSome then
      start ++ (ofAscii "&countrycode=" ++ params.countrycode.getD []) else start := by
    subst country
    clear_value start
    cases is_fwd <;> cases params.countrycode <;> simp
  rw [hcode]
  refine (appendFormat_appends (hbuffers _) (hmemory _) hstatic ?_).makes_if ?_ _
  · refine ne_zero_append (ne_zero_of_notMem (by decide)) ?_
    cases hset : params.countrycode with
    | none => simp
    | some s => exact hcountry s hset
  refine appendFormat_appends (hbuffers _) (hmemory _) hstatic ?_ hempty
  have hq : ∀ c ∈ ofAscii "?q=", c ≠ 0 := ne_zero_of_notMem (by decide)
  have hname : ∀ c ∈ ofAscii "&key=", c ≠ 0 := ne_zero_of_notMem (by decide)
  exact ne_zero_append (ne_zero_append (ne_zero_append (ne_zero_append hserver hq) hquery) hname)
    hkey

end Url

/-- A query of 1100 letters. -/
def longQuery : CString := List.replicate 1100 97

/-- The buffer on the stack is too short for the URL of this query, and one of twice its size takes
it. -/
theorem ocgeoServerRequestBuffer_makes_long :
    1024 < (ocgeoServerRequestUriImpl offlineClient (ofAscii "k") (ofAscii "u") longQuery true
        ocgeoDefaultParams).length ∧
      ∃ s alloc, ocgeoServerRequestBuffer (fun _ => .filling 7) (fun _ => .filling 0)
          (List.replicate 1024 1) offlineClient (ofAscii "k") (ofAscii "u") longQuery true
          ocgeoDefaultParams = .ok (some s) ∧
        s.Holds alloc (ocgeoServerRequestUriImpl offlineClient (ofAscii "k") (ofAscii "u") longQuery
          true ocgeoDefaultParams) := by
  have hletters : ∀ c ∈ offlineClient.curl_easy_escape longQuery, c ≠ 0 := by
    decide +kernel
  refine ⟨by decide +kernel, ocgeoServerRequestBuffer_makes (fun _ => Allocator.unlimited_filling 7)
    (fun _ => Allocator.unlimited_filling 0) List.length_replicate (ne_zero_of_notMem (by decide))
    (ne_zero_of_notMem (by decide)) hletters (by simp [ocgeoDefaultParams])
    (by simp [ocgeoDefaultParams]) (by decide +kernel)⟩

end OcgeoFdw
