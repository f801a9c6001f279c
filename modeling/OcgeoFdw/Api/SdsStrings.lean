import OcgeoFdw.Foundation.CStrings
import OcgeoFdw.Foundation.LittleEndian
import OcgeoFdw.Foundation.MemoryBlocks

/-! # Dynamic strings

The strings of `sds.c`. A pointer to one points behind a header of one of five types, with the type
in the byte in front of the pointer; the functions find the length, the size of the allocation and
its beginning from there. `Sds.Holds` says what is in the block of a string, and every function gets
a rule about it. -/

namespace OcgeoFdw

open CString Block

/-! ## The code -/

/-- Arithmetic of `size_t`. -/
def sizeT (n : ℕ) : ℕ := n % 2 ^ 64

/-- The types of header. -/
inductive SdsType
  | type5
  | type8
  | type16
  | type32
  | type64
  deriving DecidableEq

namespace SdsType

/-- `SDS_TYPE_5` to `SDS_TYPE_64`. -/
def code : SdsType → UInt8
  | type5 => 0
  | type8 => 1
  | type16 => 2
  | type32 => 3
  | type64 => 4

/-- The sizes of the headers. -/
def hdrSize : SdsType → ℕ
  | type5 => 1
  | type8 => 3
  | type16 => 5
  | type32 => 9
  | type64 => 17

/-- The size of `len` and of `alloc`. -/
def width : SdsType → ℕ
  | type5 => 0
  | type8 => 1
  | type16 => 2
  | type32 => 4
  | type64 => 8

/-- The type that `SDS_TYPE_MASK` leaves of the flags. -/
def ofFlags (flags : UInt8) : Option SdsType :=
  match (flags &&& 7).toNat with
  | 0 => some type5
  | 1 => some type8
  | 2 => some type16
  | 3 => some type32
  | 4 => some type64
  | _ => none

end SdsType

/-- The flags of a header of type 5, which keep the length. -/
def type5Flags (len : ℕ) : UInt8 := SdsType.type5.code ||| UInt8.ofNat (len <<< 3)

/-- `sdsHdrSize`. -/
def sdsHdrSize (flags : UInt8) : ℕ :=
  match SdsType.ofFlags flags with
  | none => 0
  | some type => type.hdrSize

/-- `sdsReqType`, where a `long` has 64 bits. -/
def sdsReqType (string_size : ℕ) : SdsType :=
  if string_size < 1 <<< 5 then .type5
  else if string_size < 1 <<< 8 then .type8
  else if string_size < 1 <<< 16 then .type16
  else if string_size < 1 <<< 32 then .type32
  else .type64

/-- A pointer to a string: how far it points into its block. -/
structure Sds where
  block : CString
  start : ℕ

namespace Sds

/-- Reads bytes from a distance in front of the pointer on. -/
def loadBefore (s : Sds) (distance count : ℕ) : Except MemoryFault CString :=
  if distance ≤ s.start then load s.block (s.start - distance) count else .error .overrun

/-- Stores bytes from a distance in front of the pointer on. -/
def storeBefore (s : Sds) (distance : ℕ) (bytes : CString) : Except MemoryFault Sds :=
  if distance ≤ s.start then do
    let block ← store s.block (s.start - distance) bytes
    .ok { s with block := block }
  else .error .overrun

/-- Stores bytes from an index of the string on. -/
def put (s : Sds) (index : ℕ) (bytes : CString) : Except MemoryFault Sds := do
  let block ← store s.block (s.start + index) bytes
  .ok { s with block := block }

/-- `s[-1]`. -/
def flags (s : Sds) : Except MemoryFault UInt8 := do
  let bytes ← s.loadBefore 1 1
  .ok (bytes.headD 0)

/-- `sh->len` in a header of a type. -/
def lenField (s : Sds) (type : SdsType) : Except MemoryFault ℕ := do
  let bytes ← s.loadBefore type.hdrSize type.width
  .ok (LittleEndian.value bytes)

/-- `sh->alloc` in a header of a type. -/
def allocField (s : Sds) (type : SdsType) : Except MemoryFault ℕ := do
  let bytes ← s.loadBefore (type.width + 1) type.width
  .ok (LittleEndian.value bytes)

/-- Stores `sh->len`. -/
def setLenField (s : Sds) (type : SdsType) (n : ℕ) : Except MemoryFault Sds :=
  s.storeBefore type.hdrSize (LittleEndian.bytes type.width n)

/-- Stores `sh->alloc`. -/
def setAllocField (s : Sds) (type : SdsType) (n : ℕ) : Except MemoryFault Sds :=
  s.storeBefore (type.width + 1) (LittleEndian.bytes type.width n)

end Sds

/-- `sdslen`. -/
def sdslen (s : Sds) : Except MemoryFault ℕ := do
  let flags ← s.flags
  match SdsType.ofFlags flags with
  | none => .ok 0
  | some type => if type = .type5 then .ok (flags >>> 3).toNat else s.lenField type

/-- `sdsalloc`. -/
def sdsalloc (s : Sds) : Except MemoryFault ℕ := do
  let flags ← s.flags
  match SdsType.ofFlags flags with
  | none => .ok 0
  | some type => if type = .type5 then .ok (flags >>> 3).toNat else s.allocField type

/-- The difference in `sdsavail`, of which the conversion to `size_t` is left: a `uint32_t` is
subtracted as what it is, a smaller one as an `int`. -/
def sdsDifference (type : SdsType) (alloc len : ℕ) : ℕ :=
  (((alloc : ℤ) - len) % (if type = .type32 then 2 ^ 32 else 2 ^ 64)).toNat

/-- `sdsavail`. -/
def sdsavail (s : Sds) : Except MemoryFault ℕ := do
  let flags ← s.flags
  match SdsType.ofFlags flags with
  | none => .ok 0
  | some type =>
      if type = .type5 then .ok 0
      else do
        let alloc ← s.allocField type
        let len ← s.lenField type
        .ok (sdsDifference type alloc len)

/-- `sdssetlen`. -/
def sdssetlen (s : Sds) (newlen : ℕ) : Except MemoryFault Sds := do
  let flags ← s.flags
  match SdsType.ofFlags flags with
  | none => .ok s
  | some type =>
      if type = .type5 then s.storeBefore 1 [type5Flags newlen] else s.setLenField type newlen

/-- `sdssetalloc`. -/
def sdssetalloc (s : Sds) (newlen : ℕ) : Except MemoryFault Sds := do
  let flags ← s.flags
  match SdsType.ofFlags flags with
  | none => .ok s
  | some type => if type = .type5 then .ok s else s.setAllocField type newlen

/-- A header of a type is filled in by `sdsnewlen`. -/
def Sds.fillHeader (s : Sds) (type : SdsType) (initlen : ℕ) : Except MemoryFault Sds :=
  if type = .type5 then s.storeBefore 1 [type5Flags initlen]
  else do
    let s ← s.setLenField type initlen
    let s ← s.setAllocField type initlen
    s.storeBefore 1 [type.code]

/-- The type that `sdsnewlen` takes. -/
def sdsNewType (initlen : ℕ) : SdsType :=
  let type := sdsReqType initlen
  if type = .type5 ∧ initlen = 0 then .type8 else type

/-- `sdsnewlen`, for an `init` that is not `NULL`. -/
def sdsnewlen (memory : Allocator UInt8) (init : CString) : Except MemoryFault Sds :=
  let type := sdsNewType init.length
  match memory.malloc (sizeT (type.hdrSize + init.length + 1)) with
  | none => .error .failed
  | some block => do
      let s ← (Sds.mk block type.hdrSize).fillHeader type init.length
      let s ← s.put 0 init
      s.put init.length [0]

/-- `sdsempty`. -/
def sdsempty (memory : Allocator UInt8) : Except MemoryFault Sds := sdsnewlen memory []

/-- `SDS_MAX_PREALLOC`. -/
def sdsMaxPrealloc : ℕ := 1024 * 1024

/-- The size that `sdsMakeRoomFor` asks for where a length is needed. -/
def sdsGrown (newlen : ℕ) : ℕ :=
  if newlen < sdsMaxPrealloc then sizeT (newlen * 2) else sizeT (newlen + sdsMaxPrealloc)

/-- The type that `sdsMakeRoomFor` takes: never type 5. -/
def sdsRoomType (newlen : ℕ) : SdsType :=
  let type := sdsReqType newlen
  if type = .type5 then .type8 else type

/-- The header stays, and the block is reallocated. Only the beginning of a block may be. -/
def Sds.reallocate (memory : Allocator UInt8) (s : Sds) (hdrlen newlen : ℕ) :
    Except MemoryFault Sds :=
  if s.start = hdrlen then
    match memory.realloc s.block (sizeT (hdrlen + newlen + 1)) with
    | none => .error .failed
    | some block => .ok ⟨block, hdrlen⟩
  else .error .overrun

/-- The string is moved behind a header of another type, and the old block is freed: the pointer has
to be where the old header ends. -/
def Sds.moveTo (memory : Allocator UInt8) (s : Sds) (oldhdrlen : ℕ) (type : SdsType)
    (len newlen : ℕ) : Except MemoryFault Sds :=
  match memory.malloc (sizeT (type.hdrSize + newlen + 1)) with
  | none => .error .failed
  | some block => do
      let bytes ← load s.block s.start (len + 1)
      let block ← store block type.hdrSize bytes
      if s.start = oldhdrlen then do
        let s ← (Sds.mk block type.hdrSize).storeBefore 1 [type.code]
        sdssetlen s len
      else .error .overrun

/-- The part of `sdsMakeRoomFor` that allocates. -/
def sdsEnlarge (memory : Allocator UInt8) (s : Sds) (addlen : ℕ) : Except MemoryFault Sds := do
  let flags ← s.flags
  let len ← sdslen s
  let newlen := sdsGrown (sizeT (len + addlen))
  let type := sdsRoomType newlen
  let s ←
    if SdsType.ofFlags flags = some type then s.reallocate memory type.hdrSize newlen
    else s.moveTo memory (sdsHdrSize flags) type len newlen
  sdssetalloc s newlen

/-- `sdsMakeRoomFor`. -/
def sdsMakeRoomFor (memory : Allocator UInt8) (s : Sds) (addlen : ℕ) : Except MemoryFault Sds := do
  let avail ← sdsavail s
  if addlen ≤ avail then .ok s else sdsEnlarge memory s addlen

/-- `sdscatlen`. -/
def sdscatlen (memory : Allocator UInt8) (s : Sds) (t : CString) : Except MemoryFault Sds := do
  let curlen ← sdslen s
  let s ← sdsMakeRoomFor memory s t.length
  let s ← s.put curlen t
  let s ← sdssetlen s (sizeT (curlen + t.length))
  s.put (sizeT (curlen + t.length)) [0]

/-- `sdscat`. -/
def sdscat (memory : Allocator UInt8) (s : Sds) (t : CString) : Except MemoryFault Sds :=
  sdscatlen memory s (untilNul t)

/-! ## Headers -/

namespace SdsType

/-- The flags of a header. -/
def flags (type : SdsType) (len : ℕ) : UInt8 := if type = type5 then type5Flags len else type.code

/-- A header as it is in memory. -/
def header (type : SdsType) (len alloc : ℕ) : CString :=
  LittleEndian.bytes type.width len ++ (LittleEndian.bytes type.width alloc ++ [type.flags len])

/-- What a header can count is below its limit. -/
def limit (type : SdsType) : ℕ := if type = type5 then 32 else 256 ^ type.width

/-- A header is the two fields and the flags. -/
theorem hdrSize_eq (type : SdsType) : type.hdrSize = type.width + (type.width + 1) := by
  cases type <;> rfl

@[simp] theorem length_header (type : SdsType) (len alloc : ℕ) :
    (type.header len alloc).length = type.hdrSize := by
  simp [header, hdrSize_eq]

/-- The flags of type 5 keep a length below 32. -/
theorem type5Flags_spec {len : ℕ} (h : len < 32) :
    ofFlags (type5Flags len) = some type5 ∧ (type5Flags len >>> 3).toNat = len := by
  have hall : ∀ n < 32, ofFlags (type5Flags n) = some type5 ∧ (type5Flags n >>> 3).toNat = n := by
    decide
  exact hall len h

/-- The code of a type is found in flags. -/
theorem ofFlags_code (type : SdsType) : ofFlags type.code = some type := by
  cases type <;> decide

/-- The type is found in the flags. -/
theorem ofFlags_flags {type : SdsType} {len : ℕ} (h : len < type.limit) :
    ofFlags (type.flags len) = some type := by
  by_cases h5 : type = type5
  · subst h5
    exact (type5Flags_spec h).1
  · rw [flags, if_neg h5, ofFlags_code]

/-- The limit of the types with fields. -/
theorem limit_of_ne {type : SdsType} (h : type ≠ type5) : type.limit = 256 ^ type.width :=
  if_neg h

end SdsType

namespace Sds

/-- A string behind a header. -/
def make (type : SdsType) (len alloc : ℕ) (back : CString) : Sds :=
  ⟨type.header len alloc ++ back, type.hdrSize⟩

/-- What is in front of the pointer is read. -/
theorem loadBefore_eq {s : Sds} {front middle back : CString} {distance count : ℕ}
    (hblock : s.block = front ++ (middle ++ back)) (hstart : front.length + distance = s.start)
    (hcount : middle.length = count) : s.loadBefore distance count = .ok middle := by
  have hle : distance ≤ s.start := by omega
  rw [loadBefore, if_pos hle, hblock]
  exact load_append (by omega) hcount

/-- What is stored in front of the pointer takes the place of as many bytes. -/
theorem storeBefore_eq {s : Sds} {bytes : CString} {distance : ℕ} (front middle : CString)
    {back : CString} (hblock : s.block = front ++ (middle ++ back))
    (hstart : front.length + distance = s.start) (hlength : bytes.length = middle.length) :
    s.storeBefore distance bytes = .ok ⟨front ++ (bytes ++ back), s.start⟩ := by
  have hle : distance ≤ s.start := by omega
  have hfit : bytes.length ≤ (middle ++ back).length := by simp [hlength]
  rw [storeBefore, if_pos hle, hblock, store_append (by omega) hfit, hlength, List.drop_left]
  rfl

section Headers

variable {type : SdsType} {len alloc : ℕ} {back : CString}

/-- The block with the flags taken out. -/
theorem block_make_flags : (make type len alloc back).block =
    (LittleEndian.bytes type.width len ++ LittleEndian.bytes type.width alloc) ++
      ([type.flags len] ++ back) := by
  simp only [make, SdsType.header, List.append_assoc]

/-- The block with the length taken out. -/
theorem block_make_len : (make type len alloc back).block =
    [] ++ (LittleEndian.bytes type.width len ++
      (LittleEndian.bytes type.width alloc ++ ([type.flags len] ++ back))) := by
  simp only [make, SdsType.header, List.append_assoc, List.nil_append]

/-- The block with the size of the allocation taken out. -/
theorem block_make_alloc : (make type len alloc back).block =
    LittleEndian.bytes type.width len ++
      (LittleEndian.bytes type.width alloc ++ ([type.flags len] ++ back)) := by
  simp only [make, SdsType.header, List.append_assoc]

/-- The pointer is behind the flags. -/
theorem start_make : (make type len alloc back).start = type.width + (type.width + 1) :=
  SdsType.hdrSize_eq type

/-- The flags are in front of the pointer. -/
theorem flags_make : (make type len alloc back).flags = .ok (type.flags len) := by
  have hload : (make type len alloc back).loadBefore 1 1 = .ok [type.flags len] :=
    loadBefore_eq block_make_flags (by simp [start_make, Nat.add_assoc]) rfl
  rw [flags, hload]
  rfl

/-- The length is at the beginning of the header. -/
theorem lenField_make (h : len < 256 ^ type.width) :
    (make type len alloc back).lenField type = .ok len := by
  have hload : (make type len alloc back).loadBefore type.hdrSize type.width =
      .ok (LittleEndian.bytes type.width len) :=
    loadBefore_eq block_make_len (Nat.zero_add _) (LittleEndian.length_bytes _ _)
  rw [lenField, hload]
  exact congrArg Except.ok (LittleEndian.value_bytes_of_lt h)

/-- The size of the allocation is behind the length. -/
theorem allocField_make (h : alloc < 256 ^ type.width) :
    (make type len alloc back).allocField type = .ok alloc := by
  have hload : (make type len alloc back).loadBefore (type.width + 1) type.width =
      .ok (LittleEndian.bytes type.width alloc) :=
    loadBefore_eq block_make_alloc (by simp [start_make]) (LittleEndian.length_bytes _ _)
  rw [allocField, hload]
  exact congrArg Except.ok (LittleEndian.value_bytes_of_lt h)

/-- A function that looks at the type finds it. -/
theorem bind_flags_make {α : Type} {default : Except MemoryFault α}
    {f : UInt8 → SdsType → Except MemoryFault α} (h : len < type.limit) :
    ((make type len alloc back).flags >>= fun flags =>
      match SdsType.ofFlags flags with
      | none => default
      | some type => f flags type) = f (type.flags len) type := by
  rw [flags_make]
  show (match SdsType.ofFlags (type.flags len) with
    | none => default
    | some type => f _ type) = _
  rw [SdsType.ofFlags_flags h]

/-- **`sdslen` finds the length.** -/
theorem sdslen_make (h : len < type.limit) : sdslen (make type len alloc back) = .ok len := by
  rw [sdslen, bind_flags_make h]
  by_cases h5 : type = .type5
  · subst h5
    exact congrArg Except.ok (SdsType.type5Flags_spec h).2
  · exact (if_neg h5).trans (lenField_make (SdsType.limit_of_ne h5 ▸ h))

/-- `sdsalloc` finds the size of the allocation; in type 5 that is the length. -/
theorem sdsalloc_make (hle : len ≤ alloc) (h : alloc < type.limit)
    (hexact : type = .type5 → alloc = len) : sdsalloc (make type len alloc back) = .ok alloc := by
  rw [sdsalloc, bind_flags_make (hle.trans_lt h)]
  by_cases h5 : type = .type5
  · subst h5
    rw [hexact rfl]
    exact congrArg Except.ok (SdsType.type5Flags_spec (hle.trans_lt h)).2
  · exact (if_neg h5).trans (allocField_make (SdsType.limit_of_ne h5 ▸ h))

/-- The difference does not wrap around. -/
theorem sdsDifference_eq (hle : len ≤ alloc) (h : alloc < type.limit) :
    sdsDifference type alloc len = alloc - len := by
  have hlimit : (type.limit : ℤ) ≤ if type = .type32 then 2 ^ 32 else 2 ^ 64 := by
    cases type <;> decide
  rw [sdsDifference, Int.emod_eq_of_lt (by omega) (by omega)]
  omega

/-- **`sdsavail` finds the free space**, of which type 5 has none. -/
theorem sdsavail_make (hle : len ≤ alloc) (h : alloc < type.limit)
    (hexact : type = .type5 → alloc = len) :
    sdsavail (make type len alloc back) = .ok (alloc - len) := by
  rw [sdsavail, bind_flags_make (hle.trans_lt h)]
  by_cases h5 : type = .type5
  · rw [if_pos h5, hexact h5, Nat.sub_self]
  · have hlimit := SdsType.limit_of_ne h5
    rw [if_neg h5, allocField_make (hlimit ▸ h), lenField_make (hlimit ▸ hle.trans_lt h)]
    exact congrArg Except.ok (sdsDifference_eq hle h)

/-- A length is stored in its field. -/
theorem setLenField_make (n : ℕ) (h5 : type ≠ .type5) :
    (make type len alloc back).setLenField type n = .ok (make type n alloc back) := by
  have hflags : type.flags len = type.flags n := by
    rw [SdsType.flags, SdsType.flags, if_neg h5, if_neg h5]
  have hstore : (make type len alloc back).storeBefore type.hdrSize
      (LittleEndian.bytes type.width n) = .ok ⟨(make type n alloc back).block, type.hdrSize⟩ := by
    rw [block_make_len, ← hflags]
    exact storeBefore_eq _ _ block_make_len (Nat.zero_add _) (by simp)
  exact hstore

/-- The size of an allocation is stored in its field. -/
theorem setAllocField_make (n : ℕ) :
    (make type len alloc back).setAllocField type n = .ok (make type len n back) := by
  have hstore : (make type len alloc back).storeBefore (type.width + 1)
      (LittleEndian.bytes type.width n) = .ok ⟨(make type len n back).block, type.hdrSize⟩ := by
    rw [block_make_alloc]
    exact storeBefore_eq _ _ block_make_alloc (by simp [start_make]) (by simp)
  exact hstore

/-- The flags are stored. -/
theorem storeFlags_make {bytes : CString} (n : ℕ) (hbytes : bytes = [type.flags n])
    (hlen : LittleEndian.bytes type.width len = LittleEndian.bytes type.width n) :
    (make type len alloc back).storeBefore 1 bytes = .ok (make type n alloc back) := by
  have hstore : (make type len alloc back).storeBefore 1 bytes =
      .ok ⟨(make type n alloc back).block, type.hdrSize⟩ := by
    rw [block_make_flags, ← hlen, ← hbytes]
    exact storeBefore_eq _ _ block_make_flags (by simp [start_make, Nat.add_assoc])
      (by rw [hbytes]; rfl)
  exact hstore

/-- **`sdssetlen` stores a length.** -/
theorem sdssetlen_make (n : ℕ) (h : len < type.limit) :
    sdssetlen (make type len alloc back) n = .ok (make type n alloc back) := by
  rw [sdssetlen, bind_flags_make h]
  by_cases h5 : type = .type5
  · rw [if_pos h5]
    subst h5
    exact storeFlags_make n rfl rfl
  · rw [if_neg h5, setLenField_make n h5]

/-- **`sdssetalloc` stores the size of an allocation**, for which type 5 has no place. -/
theorem sdssetalloc_make (n : ℕ) (h : len < type.limit) :
    sdssetalloc (make type len alloc back) n = .ok (make type len n back) := by
  rw [sdssetalloc, bind_flags_make h]
  by_cases h5 : type = .type5
  · rw [if_pos h5]
    subst h5
    rfl
  · rw [if_neg h5, setAllocField_make]

/-- Bytes are stored behind a part of the string. -/
theorem put_make {front tail bytes : CString} {index : ℕ} (hindex : front.length = index)
    (hfit : bytes.length ≤ tail.length) :
    (make type len alloc (front ++ tail)).put index bytes =
      .ok (make type len alloc (front ++ (bytes ++ tail.drop bytes.length))) := by
  have hstore : store (make type len alloc (front ++ tail)).block
      ((make type len alloc (front ++ tail)).start + index) bytes =
        .ok (make type len alloc (front ++ (bytes ++ tail.drop bytes.length))).block := by
    simp only [make, ← List.append_assoc (type.header len alloc) front]
    exact store_append (by simp [hindex]) hfit
  rw [put, hstore]
  rfl

/-- Bytes are stored at the beginning of the string. -/
theorem put_zero_make {bytes : CString} (hfit : bytes.length ≤ back.length) :
    (make type len alloc back).put 0 bytes =
      .ok (make type len alloc (bytes ++ back.drop bytes.length)) :=
  put_make (List.length_nil) hfit

/-- The NUL behind a text is stored. -/
theorem put_nul_make {text tail : CString} {index : ℕ} (hindex : text.length = index)
    (hfit : 1 ≤ tail.length) :
    (make type len alloc (text ++ tail)).put index [0] =
      .ok (make type len alloc (text ++ 0 :: tail.drop 1)) :=
  put_make hindex hfit

end Headers

/-! ## What a string holds -/

/-- The block of the string has a header of a type, then the text, a NUL and the free space, of which
at least what `alloc` says is there. -/
structure Has (s : Sds) (type : SdsType) (alloc : ℕ) (text rest : CString) : Prop where
  eq_make : s = make type text.length alloc (text ++ 0 :: rest)
  used : text.length ≤ alloc
  room : alloc ≤ text.length + rest.length
  counted : alloc < type.limit
  exact : type = .type5 → alloc = text.length

/-- The string holds a text, in an allocation of a size. -/
def Holds (s : Sds) (alloc : ℕ) (text : CString) : Prop := ∃ type rest, s.Has type alloc text rest

/-- A block is a part of the size of a header and what is behind it. -/
theorem exists_fields {block : CString} {type : SdsType} (h : type.hdrSize ≤ block.length) :
    ∃ first second flags back, first.length = type.width ∧ second.length = type.width ∧
      block = first ++ (second ++ ([flags] ++ back)) := by
  rw [SdsType.hdrSize_eq] at h
  obtain ⟨flags, back, hback⟩ : ∃ flags back, (block.drop type.width).drop type.width =
      flags :: back := by
    cases hdrop : (block.drop type.width).drop type.width with
    | nil =>
        have hlength := congrArg List.length hdrop
        simp only [List.length_drop, List.length_nil] at hlength
        omega
    | cons flags back => exact ⟨flags, back, rfl⟩
  refine ⟨block.take type.width, (block.drop type.width).take type.width, flags, back, ?_, ?_, ?_⟩
  · rw [List.length_take]
    omega
  · rw [List.length_take, List.length_drop]
    omega
  · rw [List.singleton_append, ← hback, List.take_append_drop, List.take_append_drop]

/-- Whatever is in the fields of a header, it is some header. -/
theorem mk_eq_make {type : SdsType} (h5 : type ≠ .type5) {first second : CString}
    (hfirst : first.length = type.width) (hsecond : second.length = type.width) (back : CString) :
    Sds.mk (first ++ second ++ ([type.code] ++ back)) type.hdrSize =
      make type (LittleEndian.value first) (LittleEndian.value second) back := by
  have hflags : type.flags (LittleEndian.value first) = type.code := if_neg h5
  have hfirst' := LittleEndian.bytes_value first
  have hsecond' := LittleEndian.bytes_value second
  rw [hfirst] at hfirst'
  rw [hsecond] at hsecond'
  rw [make, SdsType.header, hfirst', hsecond', hflags]
  simp only [List.append_assoc]

/-- A header is filled in, whatever is in the block. -/
theorem fillHeader_eq {block : CString} {type : SdsType} (n : ℕ)
    (h : type.hdrSize ≤ block.length) :
    (Sds.mk block type.hdrSize).fillHeader type n =
      .ok (make type n n (block.drop type.hdrSize)) := by
  obtain ⟨first, second, flags, back, hfirst, hsecond, rfl⟩ := exists_fields h
  have hdrop : (first ++ (second ++ ([flags] ++ back))).drop type.hdrSize = back := by
    have hlength : (first ++ (second ++ [flags])).length = type.hdrSize := by
      simp [SdsType.hdrSize_eq, hfirst, hsecond]
    have hblock : first ++ (second ++ ([flags] ++ back)) =
        (first ++ (second ++ [flags])) ++ back := by
      simp only [List.append_assoc]
    rw [hblock, ← hlength, List.drop_left]
  rw [hdrop, fillHeader]
  have hmake : make type n n back = ⟨(LittleEndian.bytes type.width n ++
      LittleEndian.bytes type.width n) ++ ([type.flags n] ++ back), type.hdrSize⟩ := by
    rw [← block_make_flags]
    rfl
  by_cases h5 : type = .type5
  · subst h5
    -- a header of type 5 is the flags alone, which hold the length
    obtain rfl := List.length_eq_zero_iff.mp hfirst
    obtain rfl := List.length_eq_zero_iff.mp hsecond
    rw [if_pos rfl]
    exact storeBefore_eq [] [flags] rfl rfl rfl
  · rw [if_neg h5]
    have hlen : (Sds.mk (first ++ (second ++ ([flags] ++ back))) type.hdrSize).setLenField type n =
        .ok ⟨LittleEndian.bytes type.width n ++ (second ++ ([flags] ++ back)), type.hdrSize⟩ := by
      rw [setLenField]
      exact storeBefore_eq [] first rfl (Nat.zero_add _) (by simp [hfirst])
    have halloc : (Sds.mk (LittleEndian.bytes type.width n ++ (second ++ ([flags] ++ back)))
        type.hdrSize).setAllocField type n = .ok ⟨LittleEndian.bytes type.width n ++
          (LittleEndian.bytes type.width n ++ ([flags] ++ back)), type.hdrSize⟩ := by
      rw [setAllocField]
      exact storeBefore_eq _ second rfl (by simp [SdsType.hdrSize_eq]) (by simp [hsecond])
    have hflags : (Sds.mk (LittleEndian.bytes type.width n ++ (LittleEndian.bytes type.width n ++
        ([flags] ++ back))) type.hdrSize).storeBefore 1 [type.code] =
          .ok (make type n n back) := by
      rw [hmake, SdsType.flags, if_neg h5]
      apply storeBefore_eq _ [flags] (List.append_assoc _ _ _).symm
      · simp [SdsType.hdrSize_eq, Nat.add_assoc]
      · rfl
    rw [hlen]
    show (do
      let s ← (Sds.mk _ type.hdrSize).setAllocField type n
      s.storeBefore 1 [type.code]) = _
    rw [halloc]
    exact hflags

end Sds

/-! ## The rules of the functions -/

/-- A length fits the header that is required for it. -/
theorem lt_limit_sdsReqType {n : ℕ} (h : n < 2 ^ 64) : n < (sdsReqType n).limit := by
  rw [sdsReqType]
  split_ifs with h5 h8 h16 h32
  · exact h5
  · exact h8
  · exact h16
  · exact h32
  · exact h

/-- The header of a new string counts its length. -/
theorem lt_limit_sdsNewType {n : ℕ} (h : n < 2 ^ 64) : n < (sdsNewType n).limit := by
  simp only [sdsNewType]
  split_ifs with hempty
  · rw [hempty.2]
    decide
  · exact lt_limit_sdsReqType h

/-- The header of an enlarged string counts its length. -/
theorem lt_limit_sdsRoomType {n : ℕ} (h : n < 2 ^ 64) : n < (sdsRoomType n).limit := by
  have hlimit := lt_limit_sdsReqType h
  simp only [sdsRoomType]
  split_ifs with h5
  · rw [h5] at hlimit
    exact hlimit.trans (by decide)
  · exact hlimit

/-- The header of an enlarged string is not of type 5. -/
theorem sdsRoomType_ne (n : ℕ) : sdsRoomType n ≠ .type5 := by
  simp only [sdsRoomType]
  split_ifs with h5
  · decide
  · exact h5

/-- No header has more than 17 bytes. -/
theorem hdrSize_le (type : SdsType) : type.hdrSize ≤ 17 := by
  cases type <;> decide

/-- **`sdsnewlen` makes a string of the bytes**, without free space. -/
theorem sdsnewlen_ends {memory : Allocator UInt8} {init : CString}
    (hsize : init.length + 18 < 2 ^ 64) :
    (sdsnewlen memory init).Ends (·.Holds init.length init) memory.Fails := by
  have htype := lt_limit_sdsNewType (show init.length < 2 ^ 64 by omega)
  have hhdr := hdrSize_le (sdsNewType init.length)
  rw [sdsnewlen]
  generalize hnew : sdsNewType init.length = type at htype hhdr
  have hrequest : sizeT (type.hdrSize + init.length + 1) = type.hdrSize + init.length + 1 :=
    Nat.mod_eq_of_lt (by omega)
  simp only [hrequest]
  cases hmalloc : memory.malloc (type.hdrSize + init.length + 1) with
  | none => exact Allocator.fails_of_malloc hmalloc
  | some block =>
      have hlength := memory.length_malloc hmalloc
      have hback : (block.drop type.hdrSize).length = init.length + 1 := by
        rw [List.length_drop]
        omega
      have hlast : 1 ≤ ((block.drop type.hdrSize).drop init.length).length := by
        rw [List.length_drop]
        omega
      refine Except.Ends.bind_of_eq (Sds.fillHeader_eq init.length (by omega)) ?_
      refine Except.Ends.bind_of_eq (Sds.put_zero_make (by omega)) ?_
      rw [Sds.put_nul_make rfl hlast]
      exact ⟨type, _, rfl, le_rfl, Nat.le_add_right _ _, htype, fun _ => rfl⟩

/-- The block is enlarged, and the header stays. -/
theorem Sds.Has.reallocate_ends {s : Sds} {type : SdsType} {alloc newlen : ℕ} {text rest : CString}
    {memory : Allocator UInt8} (h : s.Has type alloc text rest) (hnew : text.length ≤ newlen)
    (hsize : newlen + 18 < 2 ^ 64) :
    (s.reallocate memory type.hdrSize newlen).Ends
      (fun s' => ∃ rest', s' = Sds.make type text.length alloc (text ++ 0 :: rest') ∧
        newlen = text.length + rest'.length) memory.Fails := by
  have hhdr := hdrSize_le type
  have hrequest : sizeT (type.hdrSize + newlen + 1) = type.hdrSize + newlen + 1 :=
    Nat.mod_eq_of_lt (by omega)
  have hbegin : (Sds.make type text.length alloc (text ++ 0 :: rest)).start = type.hdrSize := rfl
  rw [h.eq_make, Sds.reallocate, if_pos hbegin, hrequest]
  cases hrealloc : memory.realloc (Sds.make type text.length alloc (text ++ 0 :: rest)).block
      (type.hdrSize + newlen + 1) with
  | none => exact Allocator.fails_of_realloc hrealloc
  | some block =>
      -- the header, the text and its NUL are kept
      have hstart : type.header text.length alloc ++ (text ++ [0]) <+:
          (Sds.make type text.length alloc (text ++ 0 :: rest)).block :=
        ⟨rest, by simp [Sds.make]⟩
      obtain ⟨rest', hblock⟩ := memory.prefix_realloc hrealloc hstart (by
        simp only [List.length_append, SdsType.length_header, List.length_singleton]
        omega)
      have hlength := memory.length_realloc hrealloc
      rw [← hblock] at hlength ⊢
      refine ⟨rest', ?_, ?_⟩
      · simp [Sds.make]
      · simp only [List.length_append, SdsType.length_header, List.length_singleton] at hlength
        omega

/-- The text is moved behind a new header. -/
theorem Sds.Has.moveTo_ends {s : Sds} {type : SdsType} {alloc newlen : ℕ} {text rest : CString}
    {memory : Allocator UInt8} (h : s.Has type alloc text rest) {new : SdsType} (hne : new ≠ .type5)
    (hnew : text.length ≤ newlen) (hsize : newlen + 18 < 2 ^ 64) :
    (s.moveTo memory type.hdrSize new text.length newlen).Ends
      (fun s' => ∃ alloc' rest', s' = Sds.make new text.length alloc' (text ++ 0 :: rest') ∧
        newlen = text.length + rest'.length) memory.Fails := by
  have hhdr := hdrSize_le new
  have hrequest : sizeT (new.hdrSize + newlen + 1) = new.hdrSize + newlen + 1 :=
    Nat.mod_eq_of_lt (by omega)
  rw [h.eq_make, Sds.moveTo, hrequest]
  cases hmalloc : memory.malloc (new.hdrSize + newlen + 1) with
  | none => exact Allocator.fails_of_malloc hmalloc
  | some block =>
      have hlength := memory.length_malloc hmalloc
      have hload : load (Sds.make type text.length alloc (text ++ 0 :: rest)).block type.hdrSize
          (text.length + 1) = .ok (text ++ [0]) := by
        have hblock : (Sds.make type text.length alloc (text ++ 0 :: rest)).block =
            type.header text.length alloc ++ ((text ++ [0]) ++ rest) := by
          simp [Sds.make]
        rw [hblock]
        exact load_append (SdsType.length_header _ _ _) (by simp)
      have hnewlen : new.hdrSize ≤ block.length := by omega
      -- the new block is cut into the fields of its header and what is behind them
      obtain ⟨first, second, flags, back, hfirst, hsecond, hblock⟩ := Sds.exists_fields hnewlen
      have hfront : (first ++ (second ++ [flags])).length = new.hdrSize := by
        simp [SdsType.hdrSize_eq, hfirst, hsecond]
      have hback : newlen + 1 = back.length := by
        rw [hblock] at hlength
        simp only [List.length_append, List.length_singleton] at hlength hfront
        omega
      have hstore : store block new.hdrSize (text ++ [0]) =
          .ok (first ++ (second ++ [flags]) ++ ((text ++ [0]) ++ back.drop (text ++ [0]).length)) := by
        have hparts : block = first ++ (second ++ [flags]) ++ back := by
          simp only [hblock, List.append_assoc]
        rw [hparts]
        exact store_append hfront (by simp; omega)
      have hcode : (Sds.mk (first ++ (second ++ [flags]) ++ ((text ++ [0]) ++
          back.drop (text ++ [0]).length)) new.hdrSize).storeBefore 1 [new.code] =
            .ok (Sds.make new (LittleEndian.value first) (LittleEndian.value second)
              ((text ++ [0]) ++ back.drop (text ++ [0]).length)) := by
        rw [← Sds.mk_eq_make hne hfirst hsecond]
        apply Sds.storeBefore_eq (first ++ second) [flags]
        · simp only [List.append_assoc]
        · simp [SdsType.hdrSize_eq, hfirst, hsecond, Nat.add_assoc]
        · rfl
      refine Except.Ends.bind_of_eq hload ?_
      refine Except.Ends.bind_of_eq hstore ?_
      have hbegin : (Sds.make type text.length alloc (text ++ 0 :: rest)).start = type.hdrSize :=
        rfl
      rw [if_pos hbegin]
      refine Except.Ends.bind_of_eq hcode ?_
      -- both number fields are what the block happened to hold; only the length is written here
      have hcounted : LittleEndian.value first < new.limit := by
        rw [SdsType.limit_of_ne hne, ← hfirst]
        exact LittleEndian.value_lt first
      rw [Sds.sdssetlen_make text.length hcounted]
      refine ⟨LittleEndian.value second, back.drop (text.length + 1), ?_, ?_⟩
      · simp
      · rw [List.length_drop]
        omega

/-- The C string at a pointer. -/
def Sds.cString (s : Sds) : CString := s.block.drop s.start

/-- The block of a string is its header, the text, a NUL and the free space. -/
theorem Sds.Has.block_eq {s : Sds} {type : SdsType} {alloc : ℕ} {text rest : CString}
    (h : s.Has type alloc text rest) :
    s.block = type.header text.length alloc ++ (text ++ 0 :: rest) ∧
      (type.header text.length alloc).length = s.start := by
  rw [h.eq_make]
  exact ⟨rfl, SdsType.length_header type text.length alloc⟩

/-- The text of a string is read up to the NUL. -/
theorem Sds.Holds.untilNul_cString {s : Sds} {alloc : ℕ} {text : CString} (h : s.Holds alloc text) :
    untilNul s.cString = untilNul text := by
  obtain ⟨type, rest, hhas⟩ := h
  obtain ⟨hblock, hstart⟩ := hhas.block_eq
  rw [Sds.cString, hblock, ← hstart, List.drop_left, untilNul_append_nul]

/-- The length of a string is found in its header. -/
theorem Sds.Holds.sdslen_eq {s : Sds} {alloc : ℕ} {text : CString} (h : s.Holds alloc text) :
    sdslen s = .ok text.length := by
  obtain ⟨type, rest, hhas⟩ := h
  rw [hhas.eq_make]
  exact Sds.sdslen_make (hhas.used.trans_lt hhas.counted)

/-- The text of a string is read by its length. -/
theorem Sds.Holds.load_eq {s : Sds} {alloc : ℕ} {text : CString} (h : s.Holds alloc text) :
    load s.block s.start text.length = .ok text := by
  obtain ⟨type, rest, hhas⟩ := h
  obtain ⟨hblock, hstart⟩ := hhas.block_eq
  rw [hblock]
  exact load_append hstart rfl

/-- What `sdsMakeRoomFor` asks for is enough, and it does not wrap around. -/
theorem sdsGrown_spec {n : ℕ} (h : n + sdsMaxPrealloc + 18 < 2 ^ 64) :
    n ≤ sdsGrown n ∧ sdsGrown n ≤ n + sdsMaxPrealloc := by
  rw [sdsGrown]
  split_ifs with hsmall
  · have hdouble : sizeT (n * 2) = n * 2 := Nat.mod_eq_of_lt (by omega)
    omega
  · have hadd : sizeT (n + sdsMaxPrealloc) = n + sdsMaxPrealloc := Nat.mod_eq_of_lt (by omega)
    omega

/-- The string keeps its text when it is enlarged. -/
theorem sdsEnlarge_ends {memory : Allocator UInt8} {s : Sds} {alloc addlen : ℕ} {text : CString}
    (h : s.Holds alloc text) (hsize : text.length + addlen + sdsMaxPrealloc + 18 < 2 ^ 64) :
    (sdsEnlarge memory s addlen).Ends
      (·.Holds (sdsGrown (text.length + addlen)) text) memory.Fails := by
  obtain ⟨type, rest, h⟩ := h
  have hlen : text.length < type.limit := h.used.trans_lt h.counted
  have hadd : sizeT (text.length + addlen) = text.length + addlen := Nat.mod_eq_of_lt (by omega)
  have hgrown := sdsGrown_spec hsize
  have hflags : s.flags = .ok (type.flags text.length) := by rw [h.eq_make, Sds.flags_make]
  have hlength : sdslen s = .ok text.length := by rw [h.eq_make, Sds.sdslen_make hlen]
  rw [sdsEnlarge]
  refine Except.Ends.bind_of_eq hflags (Except.Ends.bind_of_eq hlength ?_)
  simp only [hadd, SdsType.ofFlags_flags hlen, Option.some.injEq]
  generalize hnew : sdsGrown (text.length + addlen) = newlen at hgrown ⊢
  have hcounted : newlen < (sdsRoomType newlen).limit := lt_limit_sdsRoomType (by omega)
  have hne := sdsRoomType_ne newlen
  generalize sdsRoomType newlen = new at hcounted hne ⊢
  -- in both cases the fields of the header are set afterwards
  have hfields : ∀ {s' : Sds}, (∃ alloc' rest', s' = Sds.make new text.length alloc'
      (text ++ 0 :: rest') ∧ newlen = text.length + rest'.length) →
        (sdssetalloc s' newlen).Ends (·.Holds newlen text) memory.Fails := by
    rintro s' ⟨alloc', rest', rfl, hrest⟩
    rw [Sds.sdssetalloc_make newlen (by omega)]
    exact ⟨new, rest', rfl, by omega, hrest.le, hcounted, fun h5 => absurd h5 hne⟩
  split_ifs with hsame
  · subst hsame
    refine (h.reallocate_ends (by omega) (by omega)).bind fun s' hs' => hfields ?_
    obtain ⟨rest', hs', hrest⟩ := hs'
    exact ⟨alloc, rest', hs', hrest⟩
  · have hold : sdsHdrSize (type.flags text.length) = type.hdrSize := by
      rw [sdsHdrSize, SdsType.ofFlags_flags hlen]
    rw [hold]
    exact (h.moveTo_ends hne (by omega) (by omega)).bind fun s' hs' => hfields hs'

/-- The allocation of a string after room has been made for a length. -/
def sdsAllocFor (alloc needed : ℕ) : ℕ := if needed ≤ alloc then alloc else sdsGrown needed

/-- There is enough room. -/
theorem le_sdsAllocFor {alloc needed : ℕ} (h : needed + sdsMaxPrealloc + 18 < 2 ^ 64) :
    needed ≤ sdsAllocFor alloc needed := by
  rw [sdsAllocFor]
  split_ifs with henough
  · exact henough
  · exact (sdsGrown_spec h).1

/-- **`sdsMakeRoomFor` keeps the text and makes room.** -/
theorem sdsMakeRoomFor_ends {memory : Allocator UInt8} {s : Sds} {alloc addlen : ℕ}
    {text : CString} (h : s.Holds alloc text)
    (hsize : text.length + addlen + sdsMaxPrealloc + 18 < 2 ^ 64) :
    (sdsMakeRoomFor memory s addlen).Ends
      (·.Holds (sdsAllocFor alloc (text.length + addlen)) text) memory.Fails := by
  have hkeep := h
  obtain ⟨type, rest, hhas⟩ := h
  have havail : sdsavail s = .ok (alloc - text.length) := by
    rw [hhas.eq_make, Sds.sdsavail_make hhas.used hhas.counted hhas.exact]
  have hused := hhas.used
  rw [sdsMakeRoomFor]
  refine Except.Ends.bind_of_eq havail ?_
  rw [sdsAllocFor]
  by_cases henough : addlen ≤ alloc - text.length
  · rw [if_pos henough, if_pos (by omega)]
    exact hkeep
  · rw [if_neg henough, if_neg (by omega)]
    exact sdsEnlarge_ends hkeep hsize

/-- **`sdscatlen` appends the bytes**, whatever they are, or the allocator fails. -/
theorem sdscatlen_ends {memory : Allocator UInt8} {s : Sds} {alloc : ℕ} {text t : CString}
    (h : s.Holds alloc text) (hsize : text.length + t.length + sdsMaxPrealloc + 18 < 2 ^ 64) :
    (sdscatlen memory s t).Ends
      (·.Holds (sdsAllocFor alloc (text.length + t.length)) (text ++ t)) memory.Fails := by
  have hlength : sdslen s = .ok text.length := by
    obtain ⟨type, rest, hhas⟩ := h
    rw [hhas.eq_make, Sds.sdslen_make (hhas.used.trans_lt hhas.counted)]
  have hadd : sizeT (text.length + t.length) = text.length + t.length := Nat.mod_eq_of_lt (by omega)
  have hroom : text.length + t.length ≤ sdsAllocFor alloc (text.length + t.length) :=
    le_sdsAllocFor hsize
  rw [sdscatlen]
  refine Except.Ends.bind_of_eq hlength ((sdsMakeRoomFor_ends h hsize).bind fun s' hs' => ?_)
  rw [hadd]
  obtain ⟨type, rest, hhas⟩ := hs'
  have hrest := hhas.room
  rw [hhas.eq_make]
  refine Except.Ends.bind_of_eq (Sds.put_make rfl (by rw [List.length_cons]; omega)) ?_
  refine Except.Ends.bind_of_eq (Sds.sdssetlen_make _ (hhas.used.trans_lt hhas.counted)) ?_
  rw [← List.append_assoc, Sds.put_nul_make List.length_append (by
    rw [List.length_drop, List.length_cons]
    omega)]
  refine ⟨type, ((0 :: rest).drop t.length).drop 1, ?_, ?_, ?_, hhas.counted, ?_⟩
  · rw [List.length_append]
  · rw [List.length_append]
    exact hroom
  · rw [List.length_append, List.length_drop, List.length_drop, List.length_cons]
    omega
  · intro h5
    have hexact := hhas.exact h5
    rw [List.length_append]
    omega

end OcgeoFdw
