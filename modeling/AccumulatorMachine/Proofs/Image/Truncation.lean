import AccumulatorMachine.Proofs.Image.Files

/-!
# Truncated Image Files

What is read of a written file that ends too early.

A file may be cut at any of its characters. The records in front of the cut are whole. If the cut
is behind a record, with or without the end of its line, what is left is a file of the cells in
front of it. If the cut goes through a record, its line is refused, because a record is not
closed before its last character. A number in it may have lost some of its digits by then, and
may be an address or a value still, but it is never handed out.

So a cell that is read from what is left of a file is a cell of the file, and the cells that are
read are the first of them.

## Main definitions

* `Image.wholeRecords`: The number of records that are whole.
* `Image.EndsWhole`: A text that ends behind a record.

## Theorems

* `Image.cut_written`: What is left of a written file.
* `Image.ofLines?_of_isPrefix`: What is read of it.
-/

namespace AccumulatorMachine

namespace Image

/-- The number of records of some cells that a text starts with, one on each line. -/
def wholeRecords : List Cell → List Char → Nat
  | [], _ => 0
  | cell :: cells, text =>
    if cell.toRecord.toList <+: text then
      wholeRecords cells (text.drop (cell.toRecord.toList.length + 1)) + 1
    else 0

/-- A text that ends behind the last of its whole records, with or without the end of the line. -/
def EndsWhole (cells : List Cell) (text : List Char) : Prop :=
  text = written (cells.take (wholeRecords cells text))
    ∨ text ++ ['\n'] = written (cells.take (wholeRecords cells text))

instance (cells : List Cell) (text : List Char) : Decidable (EndsWhole cells text) :=
  inferInstanceAs (Decidable (_ ∨ _))

theorem toRecord_eq_cons (cell : Cell) : ∃ rest, cell.toRecord.toList = '\x7b' :: rest := by
  obtain ⟨atoms, hspells, hprint⟩ := cell.exists_print
  cases hspells <;> exact ⟨_, hprint.trans (Json.print_object _ _ _ _)⟩

theorem wholeRecords_nil (cells : List Cell) : wholeRecords cells [] = 0 := by
  cases cells with
  | nil => rfl
  | cons cell cells =>
    obtain ⟨rest, hrest⟩ := toRecord_eq_cons cell
    exact if_neg (by simp [hrest])

theorem wholeRecords_cons (cell : Cell) (cells : List Cell) (text : List Char) :
    wholeRecords (cell :: cells) (cell.toRecord.toList ++ '\n' :: text)
      = wholeRecords cells text + 1 := by
  rw [wholeRecords, if_pos (List.prefix_append _ _)]
  congr 2
  simp [← List.drop_drop]

/-- What is left of a written file: some lines, some lines and a record without the end of its
    line, or some lines and a part of a record. -/
theorem cut_written {cells : List Cell} {text : List Char} (h : text <+: written cells) :
    text = written (cells.take (wholeRecords cells text))
      ∨ (∃ before cell, cells.take (wholeRecords cells text) = before ++ [cell]
          ∧ text = written before ++ cell.toRecord.toList)
      ∨ ∃ cell part, cells[wholeRecords cells text]? = some cell
          ∧ part <+: cell.toRecord.toList ∧ part ≠ [] ∧ part ≠ cell.toRecord.toList
          ∧ text = written (cells.take (wholeRecords cells text)) ++ part := by
  induction cells generalizing text with
  | nil => exact .inl (List.prefix_nil.mp h)
  | cons cell cells ih =>
    have hrecord : wholeRecords (cell :: cells) cell.toRecord.toList = 1 := by
      rw [wholeRecords, if_pos List.prefix_rfl, List.drop_eq_nil_of_le (by omega), wholeRecords_nil]
    have hfirst : ∃ before other, (cell :: cells).take 1 = before ++ [other]
        ∧ cell.toRecord.toList = written before ++ other.toRecord.toList := ⟨[], cell, rfl, rfl⟩
    rw [written_cons] at h
    rcases Text.prefix_append h with hinside | ⟨rest, rfl, hrest⟩
    · by_cases heq : text = cell.toRecord.toList
      · subst heq
        rw [hrecord]
        exact .inr (.inl hfirst)
      have hnone : wholeRecords (cell :: cells) text = 0 :=
        if_neg fun hwhole => heq (hinside.eq_of_length_le hwhole.length_le)
      rw [hnone]
      by_cases hempty : text = []
      · exact .inl hempty
      · exact .inr (.inr ⟨cell, text, rfl, hinside, hempty, heq, rfl⟩)
    rcases List.prefix_cons_iff.mp hrest with rfl | ⟨text, rfl, htext⟩
    · rw [List.append_nil, hrecord]
      exact .inr (.inl hfirst)
    -- The first line is whole, and the cut is behind it.
    rw [wholeRecords_cons, List.take_succ_cons, List.getElem?_cons_succ, written_cons]
    rcases ih htext with heq | ⟨before, other, htake, heq⟩ | ⟨other, part, hget, hpart, hsome,
      hless, heq⟩
    · exact .inl (heq ▸ rfl)
    · exact .inr (.inl ⟨cell :: before, other, by rw [htake, List.cons_append], by
        rw [written_cons, List.append_assoc, List.cons_append, ← heq]⟩)
    · exact .inr (.inr ⟨other, part, hget, hpart, hsome, hless, by
        rw [List.append_assoc, List.cons_append, ← heq]⟩)

theorem written_concat (cells : List Cell) (cell : Cell) :
    written (cells ++ [cell]) = written cells ++ cell.toRecord.toList ++ ['\n'] := by
  rw [written_append, written_cons, written_nil, List.append_assoc]

theorem nodup_take {cells : List Cell} (hd : (cells.map Cell.address).Nodup) (k : Nat) :
    ((cells.take k).map Cell.address).Nodup := by
  rw [List.map_take]
  exact hd.sublist (List.take_sublist _ _)

section Prefix

variable {image : Image} (hwords : image.OfWords) (hd : (image.cells.map Cell.address).Nodup)
  {text : String} {k : Nat}

include hwords hd

/-- A file that ends behind a record is a file of the cells so far. -/
theorem ofLines?_take (h : LaidOutAs ⟨image.cells.take k⟩ text.toList) :
    ofLines? text = .ok ⟨image.cells.take k⟩ :=
  ofLines?_of_laidOutAs (fun cell hcell => hwords cell (List.mem_of_mem_take hcell))
    (nodup_take hd k) h

/-- A file that ends inside a record is refused in the line of the record. -/
theorem ofLines?_part {cell : Cell} {part : List Char} (hcell : image.cells[k]? = some cell)
    (hpart : part <+: cell.toRecord.toList) (hsome : part ≠ [])
    (hless : part ≠ cell.toRecord.toList)
    (htext : text.toList = written (image.cells.take k) ++ part) :
    ofLines? text = .error ⟨k + 1, .malformedRecord .cutOff⟩ := by
  have hcellwords := hwords cell (List.mem_of_getElem? hcell)
  have hbefore : ∀ other ∈ image.cells.take k, other.OfWords :=
    fun other hother => hwords other (List.mem_of_mem_take hother)
  have hnewline : '\n' ∉ part :=
    fun hmem => cell.writtenAs_toRecord.newline_not_mem hcellwords (hpart.subset hmem)
  have hline : Text.firstLine part = part := by
    rw [Text.firstLine, Text.lines_unended hnewline, if_neg hsome]
    rfl
  -- A part of a record begins with its bracket, so the line is not blank.
  have hvisible : Text.allBlank part = false := by
    obtain ⟨rest, hrest⟩ := toRecord_eq_cons cell
    rw [hrest] at hpart
    rcases List.prefix_cons_iff.mp hpart with rfl | ⟨left, rfl, -⟩
    · exact absurd rfl hsome
    · rfl
  have hk : k ≤ image.cells.length := Nat.le_of_lt (List.getElem?_eq_some_iff.mp hcell).1
  rw [(renders_written _).ofLines? hbefore (nodup_take hd k) htext,
    readLines_malformed (hline.symm ▸ hvisible)
      (hline.symm ▸ Cell.ofRecord?_of_isPrefix hcellwords hpart hless),
    count_written hbefore, List.length_take_of_le hk]
  rfl

end Prefix

/-- What is left of a written file ends behind a record, and is a file of the cells so far, or it
    ends inside one. -/
theorem endsWhole_or_part {cells : List Cell} {text : List Char} (h : text <+: written cells) :
    EndsWhole cells text ∧ LaidOutAs ⟨cells.take (wholeRecords cells text)⟩ text
      ∨ ¬ EndsWhole cells text ∧ ∃ cell part, cells[wholeRecords cells text]? = some cell
          ∧ part <+: cell.toRecord.toList ∧ part ≠ [] ∧ part ≠ cell.toRecord.toList
          ∧ text = written (cells.take (wholeRecords cells text)) ++ part := by
  rcases cut_written h with heq | ⟨before, cell, htake, heq⟩ | ⟨cell, part, hget, hpart, hsome,
    hless, heq⟩
  · refine .inl ⟨.inl heq, Renders.laidOutAs ?_⟩
    have hrenders := renders_written (cells.take (wholeRecords cells text))
    rwa [← heq] at hrenders
  · refine .inl ⟨.inr ?_, before, [cell], _, _, renders_written before,
      .record cell.writtenAs_toRecord, htake, heq⟩
    rw [htake, written_concat, ← heq]
  · refine .inr ⟨fun hends => ?_, cell, part, hget, hpart, hsome, hless, heq⟩
    -- The whole records with their ends are less than all that is left.
    have hmore := congrArg List.length heq
    have hpos := List.length_pos_of_ne_nil hsome
    rw [List.length_append] at hmore
    rcases hends with hends | hends
    · have hlength := congrArg List.length hends
      omega
    · have hlength := congrArg List.length hends
      rw [List.length_append] at hlength
      omega

/-- What is read of what is left of a written file. -/
theorem ofLines?_of_isPrefix {image : Image} (hwords : image.OfWords)
    (hd : (image.cells.map Cell.address).Nodup) {text : String}
    (htext : text.toList <+: image.toLines.toList) :
    (EndsWhole image.cells text.toList →
        ofLines? text = .ok ⟨image.cells.take (wholeRecords image.cells text.toList)⟩)
      ∧ (¬ EndsWhole image.cells text.toList →
          ofLines? text
            = .error ⟨wholeRecords image.cells text.toList + 1, .malformedRecord .cutOff⟩)
      ∧ ∀ other, ofLines? text = .ok other → other.cells <+: image.cells := by
  rw [toList_toLines] at htext
  rcases endsWhole_or_part htext with ⟨hends, hlaid⟩ | ⟨hends, cell, part, hget, hpart, hsome,
    hless, heq⟩
  · have hread := ofLines?_take hwords hd hlaid
    refine ⟨fun _ => hread, fun hnot => absurd hends hnot, fun other hother => ?_⟩
    cases hread.symm.trans hother
    exact List.take_prefix _ _
  · have hread := ofLines?_part hwords hd hget hpart hsome hless heq
    exact ⟨fun h => absurd h hends, fun _ => hread, fun _ hother => nomatch hread.symm.trans hother⟩

/-- The first record of a file, without the end of its line. -/
def firstRecord : String :=
  "\x7b\"value\": \x7b\"opcode\": \"READ\", \"address\": 2\x7d, \"address\": 0\x7d"

/-- A file that ends inside the number in its second record. -/
def cutNumber : String := firstRecord ++ "\n\x7b\"value\": -4"

theorem loadsOnce_truncated :
    (loadsOnce.OfWords ∧ (loadsOnce.cells.map Cell.address).Nodup)
      ∧ (firstRecord.toList <+: loadsOnce.toLines.toList
        ∧ EndsWhole loadsOnce.cells firstRecord.toList
        ∧ wholeRecords loadsOnce.cells firstRecord.toList = 1
        ∧ ofLines? firstRecord = .ok ⟨loadsOnce.cells.take 1⟩)
      ∧ cutNumber.toList <+: loadsOnce.toLines.toList
        ∧ ¬ EndsWhole loadsOnce.cells cutNumber.toList
        ∧ wholeRecords loadsOnce.cells cutNumber.toList = 1
        ∧ ofLines? cutNumber = .error ⟨1 + 1, .malformedRecord .cutOff⟩ := by
  have hwords : loadsOnce.OfWords := by decide
  have hd : (loadsOnce.cells.map Cell.address).Nodup := by decide
  have hfirst : firstRecord.toList <+: loadsOnce.toLines.toList := by decide +kernel
  have hsecond : cutNumber.toList <+: loadsOnce.toLines.toList := by decide +kernel
  have hends : EndsWhole loadsOnce.cells firstRecord.toList := by decide +kernel
  have hinside : ¬ EndsWhole loadsOnce.cells cutNumber.toList := by decide +kernel
  have hone : wholeRecords loadsOnce.cells firstRecord.toList = 1 := by decide +kernel
  have hother : wholeRecords loadsOnce.cells cutNumber.toList = 1 := by decide +kernel
  have hread := (ofLines?_of_isPrefix hwords hd hfirst).1 hends
  have hrefused := (ofLines?_of_isPrefix hwords hd hsecond).2.1 hinside
  rw [hone] at hread
  rw [hother] at hrefused
  exact ⟨⟨hwords, hd⟩, ⟨hfirst, hends, hone, hread⟩, hsecond, hinside, hother, hrefused⟩

end Image

end AccumulatorMachine
