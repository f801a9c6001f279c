import OcgeoFdw.Api.Coordinates
import OcgeoFdw.Scanning.ColumnPlaces
import OcgeoFdw.Scanning.RowInputs

/-! # The texts of `point` and `box` columns

The input functions of `point` and `box` get texts with six decimals. `geometry_reads_back` states
that a row gives them the coordinates of its own element of the reply, rounded. -/

namespace OcgeoFdw

open CString

/-- The text of a point in parentheses reads as the point, rounded at the sixth decimal. -/
def SpellsPoint (text : CString) (coords : OcgeoLatlng) : Prop :=
  ∃ inner point, text = 40 :: (inner ++ [41]) ∧ 40 ∉ inner ∧ 41 ∉ inner ∧ ReadsPoint inner point ∧
    RoundsPoint 6 coords point

/-- The text of a box is that of its corners in parentheses. -/
def SpellsBox (text : CString) (northeast southwest : OcgeoLatlng) : Prop :=
  ∃ first second, text = 40 :: (first ++ 44 :: (second ++ [41])) ∧ SpellsPoint first northeast ∧
    SpellsPoint second southwest

/-- **The text of a point** reads as the point. -/
theorem spellsPoint_showPoint (coords : OcgeoLatlng) :
    SpellsPoint (showPoint coords.lat coords.lng) coords := by
  obtain ⟨point, hreads, hrounds⟩ := readsPoint_coordinateText (k := 6) (by norm_num) coords
  have hparenthesis : ∀ c : UInt8, c = 40 ∨ c = 41 → c ∉ coordinateText 6 coords := by
    intro c hc hmem
    rcases of_mem_coordinateText (by norm_num) hmem with rfl | hnumeral
    · revert hc
      decide
    · exact not_isNumeralByte (.inr hc) hnumeral
  refine ⟨coordinateText 6 coords, point, ?_, hparenthesis 40 (.inl rfl),
    hparenthesis 41 (.inr rfl), hreads, hrounds⟩
  have htext : showPoint coords.lat coords.lng =
      [40] ++ showFixed 6 coords.lat ++ [44] ++ showFixed 6 coords.lng ++ [41] := rfl
  rw [htext, coordinateText]
  simp only [List.append_assoc, List.cons_append, List.nil_append]

section Results

variable {services : RowServices} {r : OcgeoResult} {text : CString}

/-- The text that is printed for a `point` column. -/
theorem spellsPoint_of_printedFor (h : printedFor services 600 r = some text) :
    ∃ coords, r.internal.pointAt [ofAscii "geometry"] = some coords ∧ SpellsPoint text coords := by
  obtain ⟨coords, hcoords, rfl⟩ := pointText_eq_some_iff.mp h
  exact ⟨coords, hcoords, spellsPoint_showPoint coords⟩

/-- The text that is printed for a `box` column. -/
theorem spellsBox_of_printedFor (h : printedFor services 603 r = some text) :
    ∃ northeast southwest,
      r.internal.pointAt [ofAscii "bounds", ofAscii "northeast"] = some northeast ∧
      r.internal.pointAt [ofAscii "bounds", ofAscii "southwest"] = some southwest ∧
      SpellsBox text northeast southwest := by
  obtain ⟨northeast, southwest, hnortheast, hsouthwest, rfl⟩ := boxText_eq_some_iff.mp h
  refine ⟨northeast, southwest, hnortheast, hsouthwest, _, _, ?_, spellsPoint_showPoint northeast,
    spellsPoint_showPoint southwest⟩
  have hbox : ofAscii "(" ++ showPoint northeast.lat northeast.lng ++ ofAscii "," ++
      showPoint southwest.lat southwest.lng ++ ofAscii ")" =
        [40] ++ showPoint northeast.lat northeast.lng ++ [44] ++
          showPoint southwest.lat southwest.lng ++ [41] := rfl
  rw [hbox]
  simp only [List.append_assoc, List.cons_append, List.nil_append]

end Results

/-! ## From the reply to the columns -/

section Runs

variable {services : RowServices} {foreignScan : ForeignScan} {inputs : StartInputs}
  {explain_only : Bool} {s s' : Session} {sent : Option Sent} {sstate : OcgeoForeignScanState}
  {elements : List CJson} {b b' b'' : Backend} {node : ℕ} {events : List Event}
  {outputs : List Output} {row : TupleSlot}

/-- **The texts of points and boxes read as the geometry of the element that the row is of**,
rounded at the sixth decimal: a scan is started, its rows are fetched any number of times while other
scans go on, and the next call returns a row. -/
theorem geometry_reads_back
    (hassigned : QueryOperandsAssigned (foreignScan.env inputs) foreignScan.fdw_exprs)
    (hcolumns : ∀ column ∈ foreignScan.fdw_private, 1 ≤ column.varattno)
    (hanswered : Answered foreignScan inputs explain_only elements)
    (hbegin : ocgeoBeginForeignScan foreignScan inputs explain_only s = .ok (sent, sstate, s'))
    (hopen : b.nodes node = some ⟨foreignScan, sstate⟩)
    (hevents : ∀ event ∈ events, event.node = node → event.callback = .iterate)
    (hrun : EventRun.run (Backend.step services) b events = .ok (outputs, b'))
    (hstep : b'.step services ⟨node, .iterate⟩ = .ok (.slot (some row), b'')) :
    ∃ element, elements[events.countP fun event => event.node = node]? = some element ∧
      ∀ (i : ℕ) (text : CString),
        (row[i]? = some (some (ColumnValue.input 600 text)) →
          ∃ coords, element.pointAt [ofAscii "geometry"] = some coords ∧
            SpellsPoint text coords) ∧
        (row[i]? = some (some (ColumnValue.input 603 text)) →
          ∃ northeast southwest,
            element.pointAt [ofAscii "bounds", ofAscii "northeast"] = some northeast ∧
            element.pointAt [ofAscii "bounds", ofAscii "southwest"] = some southwest ∧
            SpellsBox text northeast southwest) := by
  obtain ⟨result, helement, hrow⟩ :=
    row_of_next hassigned hcolumns hanswered hbegin hopen hevents hrun hstep
  refine ⟨result.internal, helement, fun i text => ⟨fun htext => ?_, fun htext => ?_⟩⟩
  · exact spellsPoint_of_printedFor (RowSource.input_of_row hrow htext)
  · exact spellsBox_of_printedFor (RowSource.input_of_row hrow htext)

end Runs

/-- A result in the north-west of Greenwich, with its bounds. -/
def locatedResult : CJson :=
  .object [(ofAscii "confidence", .number 9),
    (ofAscii "bounds", .object [(ofAscii "northeast", pointValue 52 0),
      (ofAscii "southwest", pointValue 51 (-1 / 3))]),
    (ofAscii "geometry", pointValue (103 / 2) (-1 / 8))]

/-- The scan for `q`, a `point` and a `box` column where `q = 'x'`. -/
def pointScan : ForeignScan where
  catalog := queryTable.catalog
  columns := [queryAttName, ofAscii "location", ofAscii "area"]
  scanrelid := queryTable.scanrelid
  fdw_exprs := [queryEqualsText]
  fdw_private := [queryVar, ⟨1, 2, 600⟩, ⟨1, 3, 603⟩]

/-- The second row of such a scan of two results, behind a row of another scan. -/
theorem geometry_reads_back_second :
    ∃ (row : TupleSlot) (pointText boxText : CString),
      row[1]? = some (some (.input 600 pointText)) ∧
      row[2]? = some (some (.input 603 boxText)) ∧ SpellsPoint pointText ⟨103 / 2, -1 / 8⟩ ∧
      SpellsBox boxText ⟨52, 0⟩ ⟨51, -1 / 3⟩ := by
  have hanswered : Answered pointScan (repliedInputs (announces 2 [bareResult, locatedResult])) false
      [bareResult, locatedResult] :=
    .found ⟨_, _, _, rfl, rfl, rfl⟩ ⟨rfl, ⟨_, rfl, rfl⟩, fun _ => rfl⟩
  have hassigned : QueryOperandsAssigned
      (pointScan.env (repliedInputs (announces 2 [bareResult, locatedResult])))
      pointScan.fdw_exprs :=
    queryOperandsAssigned_queryEqualsText rfl rfl
  obtain ⟨sent, sstate, s', outputs, b', row, b'', pointText, boxText, hbegin, hrun, hstep, hpoint,
      hbox⟩ : ∃ sent sstate s' outputs b' row b'' pointText boxText,
      ocgeoBeginForeignScan pointScan (repliedInputs (announces 2 [bareResult, locatedResult])) false
        (Session.start [⟨0, 0⟩, ⟨0, 0⟩, ⟨0, 0⟩]) = .ok (sent, sstate, s') ∧
      EventRun.run (Backend.step acceptingServices)
        (Backend.opened s' ⟨pointScan, sstate⟩ ⟨pointScan, sstate⟩)
        [⟨0, .iterate⟩, ⟨1, .iterate⟩] = .ok (outputs, b') ∧
      b'.step acceptingServices ⟨0, .iterate⟩ = .ok (.slot (some row), b'') ∧
      row[1]? = some (some (.input 600 pointText)) ∧
      row[2]? = some (some (.input 603 boxText)) :=
    ⟨_, _, _, _, _, _, _, showPoint (103 / 2) (-1 / 8), ofAscii "(" ++ showPoint 52 0 ++
      ofAscii "," ++ showPoint 51 (-1 / 3) ++ ofAscii ")", rfl, rfl, rfl, rfl, rfl⟩
  obtain ⟨element, helement, hreads⟩ := geometry_reads_back hassigned (by decide) hanswered hbegin
    rfl (by simp) hrun hstep
  obtain rfl : locatedResult = element := Option.some.inj helement
  obtain ⟨coords, hcoords, hspellsPoint⟩ := (hreads 1 pointText).1 hpoint
  obtain ⟨northeast, southwest, hnortheast, hsouthwest, hspellsBox⟩ := (hreads 2 boxText).2 hbox
  obtain rfl : ⟨103 / 2, -1 / 8⟩ = coords := Option.some.inj hcoords
  obtain rfl : ⟨52, 0⟩ = northeast := Option.some.inj hnortheast
  obtain rfl : ⟨51, -1 / 3⟩ = southwest := Option.some.inj hsouthwest
  exact ⟨row, pointText, boxText, hpoint, hbox, hspellsPoint, hspellsBox⟩

end OcgeoFdw
