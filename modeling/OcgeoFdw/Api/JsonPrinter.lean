import OcgeoFdw.Api.JsonDocuments
import OcgeoFdw.Foundation.MemoryBlocks

/-! # The printer of cJSON

`print_value` and the functions it calls write into a buffer that `ensure` enlarges. They never write
outside it, whatever is in the memory they get, and what they write is the text of the item. Without
an allocation that fails they fail exactly for texts that are too long for an `int`. -/

namespace OcgeoFdw

open CString Block CInt

/-! ## The code -/

/-- `printbuffer`: `length` is the size of `buffer`. -/
structure PrintBuffer where
  buffer : CString
  offset : ℕ
  depth : ℕ
  format : Bool

/-- The reallocation in `ensure`. -/
def PrintBuffer.reallocate (memory : Allocator UInt8) (p : PrintBuffer) (newsize : ℕ) :
    Except MemoryFault PrintBuffer :=
  match memory.realloc p.buffer newsize with
  | none => .error .failed
  | some newbuffer => .ok { p with buffer := newbuffer }

/-- `ensure`: there is room for `needed` bytes and one more at the offset. -/
def ensure (memory : Allocator UInt8) (p : PrintBuffer) (needed : ℕ) :
    Except MemoryFault PrintBuffer :=
  if 0 < p.buffer.length ∧ p.buffer.length ≤ p.offset then .error .failed
  else if intMax < needed then .error .failed
  else
    let needed := needed + p.offset + 1
    if needed ≤ p.buffer.length then .ok p
    -- twice the size would not be an `int`: the largest one is taken, or none
    else if intMax / 2 < needed then
      if needed ≤ intMax then p.reallocate memory intMax.toNat else .error .failed
    else p.reallocate memory (needed * 2)

/-- Stores at a distance from the offset: `output_pointer` is that far from `output`. -/
def PrintBuffer.put (p : PrintBuffer) (distance : ℕ) (text : CString) :
    Except MemoryFault PrintBuffer := do
  let buffer ← store p.buffer (p.offset + distance) text
  .ok { p with buffer := buffer }

/-- `update_offset`. -/
def updateOffset (p : PrintBuffer) : Except MemoryFault PrintBuffer := do
  let length ← lengthTo 0 p.buffer p.offset
  .ok { p with offset := p.offset + length }

/-- The cases of `print_value` that copy a literal. -/
def printLiteral (memory : Allocator UInt8) (literal : CString) (p : PrintBuffer) :
    Except MemoryFault PrintBuffer := do
  let p ← ensure memory p (literal.length + 1)
  p.put 0 (literal ++ [0])

/-- `print_number`. -/
def printNumberAt (memory : Allocator UInt8) (valuedouble : CDouble) (p : PrintBuffer) :
    Except MemoryFault PrintBuffer :=
  match printNumber valuedouble with
  | none => .error .failed
  | some number_buffer => do
      let p ← ensure memory p (number_buffer.length + 1)
      let p ← p.put 0 (number_buffer ++ [0])
      .ok { p with offset := p.offset + number_buffer.length }

/-- What a character adds to `escape_characters`. -/
def escapeCharacter (c : UInt8) : ℕ :=
  if c = 34 ∨ c = 92 ∨ c = 8 ∨ c = 12 ∨ c = 10 ∨ c = 13 ∨ c = 9 then 1
  else if c.toNat < 32 then 5 else 0

/-- `escape_characters` of `print_string_ptr`. -/
def escapeCharacters (input : CString) : ℕ := (input.map escapeCharacter).sum

/-- The loop of `print_string_ptr` that copies and escapes, from a distance on. `sprintf` writes a
NUL behind the digits. -/
def putEscaped : CString → ℕ → PrintBuffer → Except MemoryFault PrintBuffer
  | [], _, p => .ok p
  | c :: input, distance, p => do
      let escape := escapeByte c
      let p ← p.put distance (if 2 < escape.length then escape ++ [0] else escape)
      putEscaped input (distance + escape.length) p

/-- `print_string_ptr`, for a string that is not `NULL`. -/
def printStringPtr (memory : Allocator UInt8) (input : CString) (p : PrintBuffer) :
    Except MemoryFault PrintBuffer := do
  let escape_characters := escapeCharacters (untilNul input)
  let output_length := (untilNul input).length + escape_characters
  let p ← ensure memory p (output_length + 3)
  if escape_characters = 0 then
    let p ← p.put 0 [34]
    let p ← p.put 1 (untilNul input)
    p.put (output_length + 1) [34, 0]
  else
    let p ← p.put 0 [34]
    let p ← putEscaped (untilNul input) 1 p
    p.put (output_length + 1) [34, 0]

/-- The tabs in front of a member in `print_object`. -/
def printTabs (memory : Allocator UInt8) (p : PrintBuffer) : Except MemoryFault PrintBuffer :=
  if p.format then do
    let p ← ensure memory p p.depth
    let p ← p.put 0 (List.replicate p.depth 9)
    .ok { p with offset := p.offset + p.depth }
  else .ok p

mutual

/-- `print_value`, and in its cases `print_array` and `print_object`. -/
def CJsonItem.printValue (memory : Allocator UInt8) :
    CJsonItem → PrintBuffer → Except MemoryFault PrintBuffer
  | .null, p => printLiteral memory (ofAscii "null") p
  | .bool value, p => printLiteral memory (ofAscii (if value then "true" else "false")) p
  | .number valuedouble, p => printNumberAt memory valuedouble p
  | .string valuestring, p => printStringPtr memory valuestring p
  | .array elements, p => do
      let p ← ensure memory p 1
      let p ← p.put 0 [91]
      let p ← printElements memory elements { p with offset := p.offset + 1, depth := p.depth + 1 }
      let p ← ensure memory p 2
      let p ← p.put 0 [93, 0]
      .ok { p with depth := p.depth - 1 }
  | .object members, p => do
      let start : CString := if p.format then [123, 10] else [123]
      let p ← ensure memory p (start.length + 1)
      let p ← p.put 0 start
      let p ← printMembers memory members
        { p with offset := p.offset + start.length, depth := p.depth + 1 }
      let p ← ensure memory p (if p.format then p.depth + 1 else 2)
      let tabs : CString := if p.format then List.replicate (p.depth - 1) 9 else []
      let p ← p.put 0 (tabs ++ [125, 0])
      .ok { p with depth := p.depth - 1 }

/-- The loop of `print_array`. -/
def printElements (memory : Allocator UInt8) :
    List CJsonItem → PrintBuffer → Except MemoryFault PrintBuffer
  | [], p => .ok p
  | e :: elements, p => do
      let p ← CJsonItem.printValue memory e p
      let p ← updateOffset p
      if elements.isEmpty then printElements memory elements p
      else
        let comma : CString := if p.format then [44, 32] else [44]
        let p ← ensure memory p (comma.length + 1)
        let p ← p.put 0 (comma ++ [0])
        printElements memory elements { p with offset := p.offset + comma.length }

/-- The loop of `print_object`. -/
def printMembers (memory : Allocator UInt8) :
    List (CString × CJsonItem) → PrintBuffer → Except MemoryFault PrintBuffer
  | [], p => .ok p
  | (string, e) :: members, p => do
      let p ← printTabs memory p
      let p ← printStringPtr memory string p
      let p ← updateOffset p
      let colon : CString := if p.format then [58, 9] else [58]
      let p ← ensure memory p colon.length
      let p ← p.put 0 colon
      let p ← CJsonItem.printValue memory e { p with offset := p.offset + colon.length }
      let p ← updateOffset p
      let comma : CString := if members.isEmpty then [] else [44]
      let line : CString := if p.format then [10] else []
      let p ← ensure memory p ((comma ++ line).length + 1)
      let p ← p.put 0 (comma ++ line ++ [0])
      printMembers memory members { p with offset := p.offset + (comma ++ line).length }

end

/-- `print`: the text without the NUL behind it. -/
def CJsonItem.print (memory : Allocator UInt8) (item : CJsonItem) (format : Bool) :
    Except MemoryFault CString :=
  match memory.malloc 256 with
  | none => .error .failed
  | some buffer => do
      let p ← CJsonItem.printValue memory item
        { buffer := buffer, offset := 0, depth := 0, format := format }
      let p ← updateOffset p
      match memory.realloc p.buffer (p.offset + 1) with
      | none => .error .failed
      | some printed => do
          -- the caller reads a C string
          let length ← lengthTo 0 printed 0
          .ok (printed.take length)

/-! ## What the buffer holds -/

/-- The buffer starts with `start`, and it has `room` bytes, no more than an `int` can count. -/
structure PrintBuffer.Holds (p : PrintBuffer) (format : Bool) (depth offset : ℕ) (start : CString)
    (room : ℕ) : Prop where
  format_eq : p.format = format
  depth_eq : p.depth = depth
  offset_eq : p.offset = offset
  contents : start <+: p.buffer
  room_le : room ≤ p.buffer.length
  fits : p.buffer.length ≤ intMax

/-- The offset is behind what has been written, with at least one byte left. -/
def PrintBuffer.Ready (p : PrintBuffer) (format : Bool) (depth : ℕ) (written : CString) : Prop :=
  p.Holds format depth written.length written (written.length + 1)

/-- A text with a NUL is behind what had been written, and the offset is somewhere in it. -/
def PrintBuffer.Printed (p : PrintBuffer) (format : Bool) (depth : ℕ) (written text : CString) :
    Prop :=
  ∃ front back, text = front ++ back ∧
    p.Holds format depth (written ++ front).length (written ++ (text ++ [0]))
      (written.length + text.length + 2)

/-- The only fault is a failure, and it comes from the allocator or from a size that is too large. -/
def PrintFails (memory : Allocator UInt8) (size : ℕ) (fault : MemoryFault) : Prop :=
  fault = .failed ∧ (memory.Unlimited → intMax < size)

namespace PrintBuffer

variable {p : PrintBuffer} {format : Bool} {depth offset room : ℕ} {start : CString}

/-- Less may be known. -/
theorem Holds.mono (h : p.Holds format depth offset start room) {start' : CString} {room' : ℕ}
    (hstart : start' <+: start) (hroom : room' ≤ room) :
    p.Holds format depth offset start' room' :=
  { h with contents := hstart.trans h.contents, room_le := hroom.trans h.room_le }

/-- Once the offset is behind a part of what is known, the buffer is ready again. -/
theorem Holds.ready (h : p.Holds format depth offset start room) {p' : PrintBuffer} {depth' : ℕ}
    {written : CString} (hbuffer : p'.buffer = p.buffer) (hformat : p'.format = p.format)
    (hdepth : p'.depth = depth') (hoffset : p'.offset = written.length)
    (hwritten : written <+: start) (hroom : written.length < room) :
    p'.Ready format depth' written where
  format_eq := hformat.trans h.format_eq
  depth_eq := hdepth
  offset_eq := hoffset
  contents := hbuffer ▸ hwritten.trans h.contents
  room_le := hbuffer ▸ Nat.succ_le_of_lt (hroom.trans_le h.room_le)
  fits := hbuffer ▸ h.fits

/-- What is stored behind the known start extends it. -/
theorem Holds.put_ends (h : p.Holds format depth offset start room) {distance : ℕ} {text : CString}
    (hoffset : offset + distance = start.length) (hroom : start.length + text.length ≤ room)
    {F : MemoryFault → Prop} :
    (p.put distance text).Ends
      (fun p' => p'.Holds format depth offset (start ++ text) room) F := by
  obtain ⟨buffer, hstore, hlen, hprefix⟩ :=
    store_of_prefix h.contents (hroom.trans h.room_le)
  rw [put, h.offset_eq, hoffset, hstore]
  refine ⟨h.format_eq, h.depth_eq, rfl, hprefix, ?_, ?_⟩
  · exact hlen ▸ h.room_le
  · exact hlen ▸ h.fits

/-- **`ensure` makes room for the bytes that are needed and one more.** -/
theorem Ready.ensure_ends {memory : Allocator UInt8} {written : CString}
    (h : p.Ready format depth written) {needed size : ℕ}
    (hsize : written.length + needed + 1 ≤ size) :
    (ensure memory p needed).Ends
      (fun p' => p'.Holds format depth written.length written (written.length + needed + 1))
      (PrintFails memory size) := by
  have hlen : written.length < p.buffer.length := h.room_le
  have hfits := h.fits
  have hgrow : ∀ newsize : ℕ, written.length + needed + 1 ≤ newsize → (newsize : ℤ) ≤ intMax →
      (p.reallocate memory newsize).Ends
      (fun p' => p'.Holds format depth written.length written (written.length + needed + 1))
      (PrintFails memory size) := by
    intro newsize hroom hmax
    rw [reallocate]
    cases hrealloc : memory.realloc p.buffer newsize with
    | none => exact ⟨rfl, fun hmemory => absurd hrealloc (hmemory.realloc_ne _ _)⟩
    | some newbuffer =>
        have hnew := memory.length_realloc hrealloc
        have hstart := memory.prefix_realloc hrealloc h.contents (by omega)
        exact ⟨h.format_eq, h.depth_eq, h.offset_eq, hstart, hnew ▸ hroom, hnew ▸ hmax⟩
  have htoolarge : intMax < written.length + needed + 1 →
      PrintFails memory size .failed :=
    fun hlarge => ⟨rfl, fun _ => by omega⟩
  have hkeep : written.length + needed + 1 ≤ p.buffer.length →
      p.Holds format depth written.length written (written.length + needed + 1) :=
    fun hroom => { h with room_le := hroom }
  have hnat : ((intMax.toNat : ℕ) : ℤ) = intMax := by decide
  rw [ensure, h.offset_eq]
  -- the value of the limit plays no role
  generalize intMax = limit at *
  simp only
  split_ifs with hinvalid hneeded hroom hhalf hmax
  · omega
  · exact htoolarge (by omega)
  · exact hkeep (by omega)
  · exact hgrow _ (by omega) hnat.le
  · exact htoolarge (by omega)
  · exact hgrow _ (by omega) (by omega)

/-- **`update_offset` moves behind the text.** -/
theorem Printed.updateOffset_holds {written text : CString}
    (h : p.Printed format depth written text) (hnul : ∀ c ∈ text, c ≠ 0) {F : MemoryFault → Prop} :
    (updateOffset p).Ends
      (fun p' => p'.Holds format depth (written ++ text).length (written ++ (text ++ [0]))
        (written.length + text.length + 2)) F := by
  obtain ⟨front, back, rfl, hholds⟩ := h
  have hcontents : (written ++ front) ++ (back ++ [0]) <+: p.buffer := by
    have h := hholds.contents
    simpa only [List.append_assoc] using h
  have hlength := lengthTo_of_prefix hcontents fun c hc => hnul c (List.mem_append_right _ hc)
  rw [updateOffset, hholds.offset_eq, hlength]
  refine { hholds with offset_eq := ?_ }
  simp only [List.length_append]
  omega

/-- Behind the text, the buffer is ready again. -/
theorem Printed.updateOffset_ends {written text : CString} (h : p.Printed format depth written text)
    (hnul : ∀ c ∈ text, c ≠ 0) {F : MemoryFault → Prop} :
    (updateOffset p).Ends (fun p' => p'.Ready format depth (written ++ text)) F := by
  refine (h.updateOffset_holds hnul).mono (fun p' h' => ?_) fun _ hf => hf
  refine h'.mono ⟨[0], by simp⟩ ?_
  simp only [List.length_append]
  omega

end PrintBuffer

section Steps

variable {memory : Allocator UInt8} {format : Bool} {depth : ℕ}

/-- A step that prints a text and leaves the offset in it. -/
def PrintsText (memory : Allocator UInt8) (format : Bool) (depth : ℕ) (text : CString)
    (step : PrintBuffer → Except MemoryFault PrintBuffer) : Prop :=
  ∀ ⦃written p size⦄, p.Ready format depth written → written.length + text.length + 2 ≤ size →
    (step p).Ends (·.Printed format depth written text) (PrintFails memory size)

/-- A step that appends a text. -/
def AppendsText (memory : Allocator UInt8) (format : Bool) (depth : ℕ) (text : CString)
    (step : PrintBuffer → Except MemoryFault PrintBuffer) : Prop :=
  ∀ ⦃written p size⦄, p.Ready format depth written → written.length + text.length + 2 ≤ size →
    (step p).Ends (·.Ready format depth (written ++ text)) (PrintFails memory size)

/-- A literal is printed. -/
theorem printLiteral_prints (literal : CString) :
    PrintsText memory format depth literal (printLiteral memory literal) := by
  intro written p size h hsize
  refine (h.ensure_ends (by omega)).bind fun p1 h1 => ?_
  refine (h1.put_ends (Nat.add_zero _) (by simp)).mono (fun p2 h2 => ?_) fun _ hf => hf
  refine ⟨[], literal, rfl, ?_⟩
  rw [List.append_nil]
  exact h2.mono List.prefix_rfl (by omega)

/-- A number is printed. -/
theorem printNumberAt_prints (d : CDouble) :
    PrintsText memory format depth (numberBuffer d) (printNumberAt memory d) := by
  intro written p size h hsize
  rw [printNumberAt, printNumber_eq]
  refine (h.ensure_ends (by omega)).bind fun p1 h1 => ?_
  refine (h1.put_ends (Nat.add_zero _) (by simp)).bind fun p2 h2 => ?_
  refine ⟨numberBuffer d, [], (List.append_nil _).symm, h2.format_eq, h2.depth_eq, ?_,
    h2.contents, ?_, h2.fits⟩
  · rw [h2.offset_eq, List.length_append]
  · have := h2.room_le
    omega

/-! ## Strings -/

/-- The characters that an escape adds are counted. -/
theorem length_escapeByte (c : UInt8) : (escapeByte c).length = 1 + escapeCharacter c := by
  by_cases hsmall : c.toNat < 32
  · have hall : ∀ n < 32, (escapeByte (UInt8.ofNat n)).length =
        1 + escapeCharacter (UInt8.ofNat n) := by decide
    have h := hall _ hsmall
    rwa [UInt8.ofNat_toNat] at h
  · have hcontrol : ∀ d : UInt8, d.toNat < 32 → c ≠ d := by
      rintro d hd rfl
      exact hsmall hd
    rw [escapeByte, escapeCharacter]
    by_cases hbackslash : c = 92
    · rw [hbackslash]
      rfl
    by_cases hquote : c = 34
    · rw [hquote]
      rfl
    rw [if_pos ⟨by omega, hquote, hbackslash⟩, if_neg, if_neg hsmall]
    · rfl
    · rintro (h | h | h | h | h | h | h)
      · exact hquote h
      · exact hbackslash h
      all_goals exact hcontrol _ (by decide) h

/-- The copied string has the length that was counted. -/
theorem length_flatMap_escapeByte (s : CString) :
    (s.flatMap escapeByte).length = s.length + escapeCharacters s := by
  induction s with
  | nil => rfl
  | cons c s ih =>
      rw [List.flatMap_cons, List.length_append, ih, length_escapeByte, List.length_cons,
        escapeCharacters, escapeCharacters, List.map_cons, List.sum_cons]
      omega

/-- Where nothing is escaped, the string is copied as it is. -/
theorem flatMap_escapeByte_eq {s : CString} (h : escapeCharacters s = 0) :
    s.flatMap escapeByte = s := by
  induction s with
  | nil => rfl
  | cons c s ih =>
      rw [escapeCharacters, List.map_cons, List.sum_cons] at h
      have hone : escapeByte c = [c] := by
        have hc : escapeCharacter c = 0 := by omega
        rw [escapeByte, if_pos]
        rw [escapeCharacter] at hc
        split_ifs at hc with hescaped hsmall
        exact ⟨by omega, fun hquote => hescaped (Or.inl hquote),
          fun hbackslash => hescaped (Or.inr (Or.inl hbackslash))⟩
      rw [List.flatMap_cons, hone, ih (by rw [escapeCharacters]; omega)]
      rfl

/-- The loop copies the escaped string. -/
theorem putEscaped_ends {s : CString} {p : PrintBuffer} {offset distance room : ℕ} {start : CString}
    (h : p.Holds format depth offset start room) (hoffset : offset + distance = start.length)
    (hroom : start.length + (s.flatMap escapeByte).length + 1 ≤ room) {F : MemoryFault → Prop} :
    (putEscaped s distance p).Ends
      (fun p' => p'.Holds format depth offset (start ++ s.flatMap escapeByte) room) F := by
  induction s generalizing p distance start with
  | nil => simpa [putEscaped] using h
  | cons c s ih =>
      rw [List.flatMap_cons, List.length_append] at hroom
      rw [putEscaped]
      refine (h.put_ends hoffset ?_).bind fun p1 h1 => ?_
      · split
        · simp
          omega
        · omega
      · rw [List.flatMap_cons, ← List.append_assoc]
        refine ih ?_ ?_ ?_
        · refine h1.mono ?_ le_rfl
          split
          · exact ⟨[0], by simp⟩
          · exact List.prefix_rfl
        · rw [List.length_append]
          omega
        · rw [List.length_append]
          omega

/-- **A string is printed**, with and without characters to escape. -/
theorem printStringPtr_prints (s : CString) :
    PrintsText memory format depth (stringText s) (printStringPtr memory s) := by
  intro written p size h hsize
  set body := (untilNul s).flatMap escapeByte with hbody
  have hlen : body.length = (untilNul s).length + escapeCharacters (untilNul s) :=
    length_flatMap_escapeByte (untilNul s)
  have htext : stringText s = 34 :: (body ++ [34]) := rfl
  have htextlen : (stringText s).length = body.length + 2 := by
    rw [htext]
    simp
  -- both ways the quotes end up around the escaped string
  have hclose : ∀ p' : PrintBuffer, p'.Holds format depth written.length (written ++ [34] ++ body)
      (written.length + (body.length + 3) + 1) →
      (p'.put (body.length + 1) [34, 0]).Ends (·.Printed format depth written (stringText s))
        (PrintFails memory size) := by
    intro p' h'
    refine (h'.put_ends (by simp) (by simp)).mono (fun p2 h2 => ?_) fun _ hf => hf
    refine ⟨[], stringText s, rfl, ?_⟩
    rw [List.append_nil, htextlen]
    refine h2.mono ?_ (by omega)
    rw [htext]
    simp
  rw [printStringPtr, ← hlen]
  refine (h.ensure_ends (by omega)).bind fun p1 h1 => ?_
  split
  · rename_i hplain
    have hsame : body = untilNul s := flatMap_escapeByte_eq hplain
    refine (h1.put_ends (Nat.add_zero _) (by simp)).bind fun p2 h2 => ?_
    refine (h2.put_ends (by simp) (by simp; omega)).bind fun p3 h3 => hclose p3 ?_
    rwa [← hsame] at h3
  · refine (h1.put_ends (Nat.add_zero _) (by simp)).bind fun p2 h2 => ?_
    have hroom : (written ++ [34]).length + body.length + 1 ≤
        written.length + (body.length + 3) + 1 := by
      simp
      omega
    exact (putEscaped_ends h2 (by simp) hroom).bind fun p3 h3 => hclose p3 h3

/-! ## Arrays and objects -/

/-- The loop of `print_array` appends the elements with commas between them. -/
theorem printElements_appends {elements : List CJsonItem}
    (hvalue : ∀ e ∈ elements,
      PrintsText memory format depth (e.text format depth) (CJsonItem.printValue memory e)) :
    AppendsText memory format depth
      (joinTexts [] (if format then [32] else []) [] (elements.map fun e => e.text format depth))
      (printElements memory elements) := by
  induction elements with
  | nil =>
      intro written p size h hsize
      rw [printElements, List.map_nil, joinTexts, List.append_nil]
      exact h
  | cons e elements ih =>
      intro written p size h hsize
      obtain ⟨hfirst, hrest⟩ := List.forall_mem_cons.mp hvalue
      have hnul := ne_zero_of_mem_text format e depth
      cases elements with
      | nil =>
          rw [printElements]
          simp only [List.map_cons, List.map_nil, joinTexts, List.nil_append, List.append_nil]
            at hsize ⊢
          refine (hfirst h hsize).bind fun p1 h1 => (h1.updateOffset_ends hnul).bind fun p2 h2 => ?_
          exact h2
      | cons e' elements =>
          rw [List.map_cons, joinTexts_cons (by simp), List.nil_append] at hsize ⊢
          set text := e.text format depth with htext
          set space : CString := if format then [32] else [] with hspace
          set others := joinTexts [] space [] ((e' :: elements).map fun e => e.text format depth)
          simp only [List.length_append, List.length_cons] at hsize
          rw [printElements]
          refine (hfirst h (by omega)).bind fun p1 h1 => (h1.updateOffset_ends hnul).bind
            fun p2 h2 => ?_
          have hcomma : (if p2.format then [44, 32] else [44] : CString) = 44 :: space := by
            rw [h2.format_eq, hspace]
            cases format with
            | true => rfl
            | false => rfl
          rw [hcomma]
          simp only [List.isEmpty_cons, Bool.false_eq_true, if_false]
          refine (h2.ensure_ends (by simp; omega)).bind fun p3 h3 => ?_
          refine (h3.put_ends (Nat.add_zero _) (by simp)).bind fun p4 h4 => ?_
          have hready : ({ p4 with offset := p4.offset + (44 :: space).length } : PrintBuffer).Ready
              format depth (written ++ text ++ 44 :: space) :=
            h4.ready rfl rfl h4.depth_eq (by rw [h4.offset_eq]; simp; omega) ⟨[0], by simp⟩
              (by simp; omega)
          have hloop : (printElements memory (e' :: elements) _).Ends _ (PrintFails memory size) :=
            ih hrest hready (by simp; omega)
          rw [List.append_assoc, List.append_assoc] at hloop
          exact hloop

/-- The tabs in front of a member are appended. -/
theorem printTabs_appends :
    AppendsText memory format depth (if format then List.replicate depth 9 else [])
      (printTabs memory) := by
  intro written p size h hsize
  rw [printTabs, h.format_eq, h.depth_eq]
  cases format with
  | false =>
      rw [if_neg Bool.false_ne_true, if_neg Bool.false_ne_true, List.append_nil]
      exact h
  | true =>
      simp only [if_true, List.length_replicate] at hsize ⊢
      refine (h.ensure_ends (by omega)).bind fun p1 h1 => ?_
      rw [h1.depth_eq]
      refine (h1.put_ends (Nat.add_zero _) (by simp)).bind fun p2 h2 => ?_
      exact h2.ready rfl rfl h2.depth_eq (by rw [h2.offset_eq, h2.depth_eq]; simp) List.prefix_rfl
        (by simp)

/-- The loop of `print_object` appends the members with commas between them. -/
theorem printMembers_appends {members : List (CString × CJsonItem)}
    (hvalue : ∀ m ∈ members,
      PrintsText memory format depth (m.2.text format depth) (CJsonItem.printValue memory m.2)) :
    AppendsText memory format depth
      (joinTexts (if format then List.replicate depth 9 else []) (if format then [10] else [])
        (if format then [10] else []) (members.map (CJsonItem.memberText format depth)))
      (printMembers memory members) := by
  induction members with
  | nil =>
      intro written p size h hsize
      rw [printMembers, List.map_nil, joinTexts, List.append_nil]
      exact h
  | cons m members ih =>
      intro written p size h hsize
      obtain ⟨key, e⟩ := m
      have hfirst : PrintsText memory format depth (e.text format depth)
          (CJsonItem.printValue memory e) :=
        hvalue (key, e) List.mem_cons_self
      have hrest := (List.forall_mem_cons.mp hvalue).2
      set tabs : CString := if format then List.replicate depth 9 else [] with htabs
      set line : CString := if format then [10] else [] with hline
      set tab : CString := if format then [9] else [] with htab
      set others := joinTexts tabs line line (members.map (CJsonItem.memberText format depth))
        with hothers
      set comma : CString := if members.isEmpty then [] else [44] with hcomma
      -- the text of the loop, cut into the pieces in the order in which they are written
      have hwhole : joinTexts tabs line line
          (((key, e) :: members).map (CJsonItem.memberText format depth)) =
          tabs ++ (stringText key ++ ((58 :: tab) ++ (e.text format depth ++ ((comma ++ line) ++
            others)))) := by
        cases members with
        | nil => simp [joinTexts, CJsonItem.memberText, hcomma, hothers, htab]
        | cons m' members =>
            rw [List.map_cons, joinTexts_cons (by simp)]
            simp [CJsonItem.memberText, hcomma, hothers, htab]
      rw [hwhole] at hsize ⊢
      simp only [List.length_append, List.length_cons] at hsize
      have hindent : AppendsText memory format depth tabs (printTabs memory) := printTabs_appends
      rw [printMembers]
      refine (hindent h (by omega)).bind fun p1 h1 => ?_
      refine (printStringPtr_prints key h1 (by simp; omega)).bind fun p2 h2 => ?_
      refine (h2.updateOffset_ends ne_zero_of_mem_stringText).bind fun p3 h3 => ?_
      -- the colon is put over the NUL that ends the name
      have hcolon : (if p3.format then [58, 9] else [58] : CString) = 58 :: tab := by
        rw [h3.format_eq, htab]
        cases format with
        | true => rfl
        | false => rfl
      rw [hcolon]
      refine (h3.ensure_ends (by simp; omega)).bind fun p4 h4 => ?_
      refine (h4.put_ends (Nat.add_zero _) (by simp)).bind fun p5 h5 => ?_
      set named := written ++ tabs ++ stringText key ++ 58 :: tab with hnamed
      have hready : ({ p5 with offset := p5.offset + (58 :: tab).length } : PrintBuffer).Ready
          format depth named :=
        h5.ready rfl rfl h5.depth_eq (by rw [h5.offset_eq, hnamed]; simp; omega)
          List.prefix_rfl (by rw [hnamed]; simp; omega)
      have hnamedlen : named.length =
          written.length + tabs.length + (stringText key).length + tab.length + 1 := by
        rw [hnamed]
        simp only [List.length_append, List.length_cons]
        omega
      refine (hfirst hready (by omega)).bind fun p6 h6 => ?_
      refine (h6.updateOffset_ends (ne_zero_of_mem_text format e depth)).bind fun p7 h7 => ?_
      -- the last member has no comma behind it
      rw [h7.format_eq, ← hcomma, ← hline]
      simp only
      refine (h7.ensure_ends (by simp; omega)).bind fun p8 h8 => ?_
      refine (h8.put_ends (Nat.add_zero _) (by simp; omega)).bind fun p9 h9 => ?_
      have hready' : ({ p9 with offset := p9.offset + (comma ++ line).length } : PrintBuffer).Ready
          format depth (named ++ e.text format depth ++ (comma ++ line)) :=
        h9.ready rfl rfl h9.depth_eq (by rw [h9.offset_eq]; simp; omega) ⟨[0], by simp⟩
          (by simp; omega)
      have hloop : (printMembers memory members _).Ends _ (PrintFails memory size) :=
        ih hrest hready' (by simp; omega)
      rw [hnamed] at hloop
      simpa only [List.append_assoc] using hloop

/-- **An item is printed as its text**, at any depth. -/
theorem printValue_prints (item : CJsonItem) (depth : ℕ) :
    PrintsText memory format depth (item.text format depth) (CJsonItem.printValue memory item) := by
  induction item using CJsonItem.induct generalizing depth with
  | null => exact printLiteral_prints _
  | bool value => exact printLiteral_prints _
  | number d => exact printNumberAt_prints d
  | string s => exact printStringPtr_prints s
  | array elements ih =>
      intro written p size h hsize
      have hloop := printElements_appends fun e he => ih e he (depth + 1)
      rw [CJsonItem.text, CJsonItem.textsOfElements_eq] at hsize ⊢
      set body := joinTexts [] (if format then [32] else []) []
        (elements.map fun e => e.text format (depth + 1))
      simp only [List.length_cons, List.length_append, List.length_nil] at hsize
      rw [CJsonItem.printValue]
      refine (h.ensure_ends (by omega)).bind fun p1 h1 => ?_
      refine (h1.put_ends (Nat.add_zero _) (by simp)).bind fun p2 h2 => ?_
      have hready : ({ p2 with offset := p2.offset + 1, depth := p2.depth + 1 } :
          PrintBuffer).Ready format (depth + 1) (written ++ [91]) :=
        h2.ready rfl rfl (congrArg (· + 1) h2.depth_eq) (by rw [h2.offset_eq]; simp)
          List.prefix_rfl (by simp)
      -- the loop starts behind the opening bracket, with room for all that follows
      refine (hloop hready (by simp; omega)).bind fun p3 h3 => ?_
      refine (h3.ensure_ends (by simp; omega)).bind fun p4 h4 => ?_
      refine (h4.put_ends (Nat.add_zero _) (by simp)).bind fun p5 h5 => ?_
      refine ⟨91 :: body, [93], by simp, h5.format_eq, ?_, ?_, ?_, ?_, h5.fits⟩
      · rw [h5.depth_eq, Nat.add_sub_cancel]
      · rw [h5.offset_eq]
        simp
      · refine List.IsPrefix.trans ?_ h5.contents
        exact ⟨[], by simp⟩
      · refine le_trans ?_ h5.room_le
        simp
        omega
  | object members ih =>
      intro written p size h hsize
      have hloop := printMembers_appends fun m hm => ih m hm (depth + 1)
      rw [CJsonItem.text, CJsonItem.textsOfMembers_eq] at hsize ⊢
      simp only at hsize ⊢
      set tabs : CString := if format then List.replicate depth 9 else [] with htabs
      set line : CString := if format then [10] else [] with hline
      set body := joinTexts (if format then List.replicate (depth + 1) 9 else []) line line
        (members.map (CJsonItem.memberText format (depth + 1)))
      simp only [List.length_cons, List.length_append, List.length_nil] at hsize
      rw [CJsonItem.printValue]
      -- formatted, the members stand on lines of their own
      have hstart : (if p.format then [123, 10] else [123] : CString) = 123 :: line := by
        rw [h.format_eq, hline]
        cases format with
        | true => rfl
        | false => rfl
      rw [hstart]
      refine (h.ensure_ends (by simp; omega)).bind fun p1 h1 => ?_
      refine (h1.put_ends (Nat.add_zero _) (by simp; omega)).bind fun p2 h2 => ?_
      have hready : ({ p2 with offset := p2.offset + (123 :: line).length, depth := p2.depth + 1 } :
          PrintBuffer).Ready format (depth + 1) (written ++ 123 :: line) :=
        h2.ready rfl rfl (congrArg (· + 1) h2.depth_eq) (by rw [h2.offset_eq]; simp)
          List.prefix_rfl (by simp)
      refine (hloop hready (by simp; omega)).bind fun p3 h3 => ?_
      have hneeded : (if p3.format then p3.depth + 1 else 2) = tabs.length + 2 := by
        rw [h3.format_eq, h3.depth_eq, htabs]
        cases format with
        | true => simp
        | false => rfl
      rw [hneeded]
      refine (h3.ensure_ends (by simp; omega)).bind fun p4 h4 => ?_
      have htabs' : (if p4.format then List.replicate (p4.depth - 1) 9 else [] : CString) = tabs := by
        rw [h4.format_eq, h4.depth_eq, Nat.add_sub_cancel]
      rw [htabs']
      refine (h4.put_ends (Nat.add_zero _) (by simp)).bind fun p5 h5 => ?_
      refine ⟨123 :: (line ++ body), tabs ++ [125], by simp, h5.format_eq, ?_, ?_, ?_, ?_, h5.fits⟩
      · rw [h5.depth_eq, Nat.add_sub_cancel]
      · rw [h5.offset_eq]
        simp
      · refine List.IsPrefix.trans ?_ h5.contents
        exact ⟨[], by simp⟩
      · refine le_trans ?_ h5.room_le
        simp
        omega

end Steps

/-! ## The whole text -/

/-- `print` ends with the text of the item, or fails for want of memory or because the text is too
long. -/
theorem CJsonItem.print_ends (memory : Allocator UInt8) (item : CJsonItem) (format : Bool) :
    (item.print memory format).Ends
      (fun text => text = item.text format 0 ∧ (text.length + 2 : ℤ) ≤ intMax)
      (PrintFails memory ((item.text format 0).length + 2)) := by
  set text := item.text format 0 with htext
  have hnul : ∀ c ∈ text, c ≠ 0 := ne_zero_of_mem_text format item 0
  rw [CJsonItem.print]
  cases hmalloc : memory.malloc 256 with
  | none => exact ⟨rfl, fun hmemory => absurd hmalloc (hmemory.malloc_ne 256)⟩
  | some buffer =>
      have hlen := memory.length_malloc hmalloc
      have hready : ({ buffer := buffer, offset := 0, depth := 0, format := format } :
          PrintBuffer).Ready format 0 [] := by
        refine ⟨rfl, rfl, rfl, List.nil_prefix, ?_, ?_⟩
        · simp [hlen]
        · simp [hlen, intMax]
      refine (printValue_prints item 0 hready (by simp [htext])).bind fun p1 h1 => ?_
      refine (h1.updateOffset_holds hnul).bind fun p2 h2 => ?_
      rw [h2.offset_eq, List.nil_append]
      cases hrealloc : memory.realloc p2.buffer (text.length + 1) with
      | none => exact ⟨rfl, fun hmemory => absurd hrealloc (hmemory.realloc_ne _ _)⟩
      | some printed =>
          have hprinted : text ++ [0] <+: printed :=
            memory.prefix_realloc hrealloc h2.contents (by simp)
          have hlength : lengthTo 0 printed ([] : CString).length = .ok text.length :=
            lengthTo_of_prefix hprinted hnul
          simp only
          rw [← List.length_nil, hlength]
          have htake : printed.take text.length = text := by
            obtain ⟨rest, rfl⟩ := hprinted
            rw [List.append_assoc, List.take_left]
          have hfits := h2.fits
          have hroom : 0 + text.length + 2 ≤ p2.buffer.length := h2.room_le
          refine ⟨htake, ?_⟩
          rw [htake]
          omega

section Printing

variable {memory : Allocator UInt8} {item : CJsonItem} {format : Bool} {text : CString}

/-- What is printed is the text of the item, which fits into an `int` with two more bytes. -/
theorem CJsonItem.text_of_print (h : item.print memory format = .ok text) :
    text = item.text format 0 ∧ (text.length + 2 : ℤ) ≤ intMax := by
  have hends := item.print_ends memory format
  rwa [h] at hends

/-- Printing fails for want of memory, or because the text is too long. -/
theorem CJsonItem.printFails_of_print {fault : MemoryFault}
    (h : item.print memory format = .error fault) :
    PrintFails memory ((item.text format 0).length + 2) fault := by
  have hends := item.print_ends memory format
  rwa [h] at hends

/-- With memory for every request, a text that fits into an `int` with two more bytes is printed. -/
theorem CJsonItem.print_of_fits (hmemory : memory.Unlimited)
    (hfits : (item.text format 0).length + 2 ≤ 2 ^ 31 - 1) :
    item.print memory format = .ok (item.text format 0) := by
  cases hprint : item.print memory format with
  | ok text => rw [(CJsonItem.text_of_print hprint).1]
  | error fault =>
      have hlarge := (CJsonItem.printFails_of_print hprint).2 hmemory
      norm_num [intMax] at hlarge
      omega

/-- **The printer writes nothing outside its buffer and nothing but the text of the item**, for any
item and allocator; with memory for every request, it fails exactly for texts that do not fit into
an `int` with two more bytes. -/
theorem CJsonItem.print_spec (memory : Allocator UInt8) (item : CJsonItem) (format : Bool) :
    item.print memory format ≠ .error .overrun ∧
      (∀ text, item.print memory format = .ok text → text = item.text format 0) ∧
      (memory.Unlimited → item.print memory format =
        if ((item.text format 0).length + 2 : ℤ) ≤ intMax then .ok (item.text format 0)
        else .error .failed) := by
  refine ⟨fun h => ?_, fun text h => (CJsonItem.text_of_print h).1, fun hmemory => ?_⟩
  · cases (CJsonItem.printFails_of_print h).1
  · split_ifs with hfits
    · exact CJsonItem.print_of_fits hmemory (by norm_num [intMax] at hfits; omega)
    · -- a text that was printed would fit
      cases hprint : item.print memory format with
      | ok text =>
          obtain ⟨rfl, hfits'⟩ := CJsonItem.text_of_print hprint
          exact absurd hfits' hfits
      | error fault => rw [(CJsonItem.printFails_of_print hprint).1]

/-- **The printer and the parser**: whatever the printer returns, with any allocator, is read back as
the item when it is nested at most 1000 deep, and else it is refused. -/
theorem CJsonItem.parse_print (h : item.print memory format = .ok text) :
    CJsonItem.parse text = if item.nesting ≤ nestingLimit then some item.reread else none := by
  obtain ⟨rfl, -⟩ := CJsonItem.text_of_print h
  have hnul : ∀ c ∈ ([] : CString), c ≠ 0 := fun c hc => absurd hc List.not_mem_nil
  have hend : EndsNumber [] := fun c hc => absurd hc (by simp)
  have hparse := parse_text format item hnul hend
  rwa [List.append_nil] at hparse

/-- **What the parser has built is printed and read back unchanged**, whatever text it was built from
and with any allocator, unless it has an infinity. -/
theorem CJsonItem.parse_print_of_parse {value : CString} {json : CJson}
    (h : CJsonItem.parse value = some item) (hjson : item.toCJson = some json)
    (hprint : item.print memory format = .ok text) : CJsonItem.parse text = some item := by
  obtain ⟨rfl, -⟩ := CJsonItem.text_of_print hprint
  exact parse_text_of_parse h hjson format

end Printing

/-- An array in an array. -/
theorem CJsonItem.parse_print_nested :
    ∃ text, (CJsonItem.array [.array [], .bool true]).print (Allocator.filling 0) true = .ok text ∧
      CJsonItem.parse text = some (.array [.array [], .bool true]) := by
  have hlen : ((CJsonItem.array [.array [], .bool true]).text true 0).length = 10 := rfl
  have hprint := CJsonItem.print_of_fits (Allocator.unlimited_filling 0)
    (by rw [hlen]; norm_num : ((CJsonItem.array [.array [], .bool true]).text true 0).length + 2 ≤
      2 ^ 31 - 1)
  refine ⟨_, hprint, (CJsonItem.parse_print hprint).trans ?_⟩
  rfl

/-- The formatted text of an object that was read in front of a digit. -/
theorem CJsonItem.parse_print_of_parse_nested :
    ∃ text, nestedItem.print (Allocator.filling 0) true = .ok text ∧
      CJsonItem.parse text = some nestedItem := by
  have hfits : (nestedItem.text true 0).length + 2 ≤ 2 ^ 31 - 1 := by
    have hnumber := length_numberBuffer_le (.finite twelve)
    have hname : (stringText (ofAscii "a\"")).length = 5 := by decide
    have hletter : (stringText [0xC3, 0xA9]).length = 4 := by decide
    simp only [nestedItem, CJsonItem.text, CJsonItem.textsOfMembers, CJsonItem.textsOfElements,
      joinTexts, List.length_cons, List.length_append, hname, hletter]
    generalize (numberBuffer (.finite twelve)).length = n at hnumber
    simp only [if_true, List.length_cons, List.length_nil, List.length_replicate]
    omega
  have hprint := CJsonItem.print_of_fits (Allocator.unlimited_filling 0) hfits
  exact ⟨_, hprint, CJsonItem.parse_print_of_parse parse_nestedText rfl hprint⟩

end OcgeoFdw
