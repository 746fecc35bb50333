import AccumulatorMachine.Image.Lines
import AccumulatorMachine.Proofs.Image.Records

/-!
# Image Files in Free Layout

The image that a file holds, whatever the layout of the file.

A line of a file holds a cell if it is a record of it in some layout, and none if it is blank. It
ends with a line feed, in front of which there may be a carriage return, and the last line may
lack its end. All files whose lines hold the cells of an image one after the other are read as
that image, as long as no two of its cells have one address.

The lines of a file are read one after the other. So whatever follows lines that hold cells is
read as if it were alone, except that the lines have taken their numbers and the cells their
addresses. If it starts with a line that is not blank and not a record, or with a record of an
address that is taken, that line is refused. Its number is one more than the line feeds in front
of it, since every line has one, with or without a record.

## Main definitions

* `Image.Holds`: What a line holds.
* `Image.Renders`: Lines with their ends that hold cells.
* `Image.LaidOutAs`: A text that holds an image.

## Theorems

* `Text.lines_ended`: A line with its end is the first line of a text.
* `Image.Holds.readLines`: Reading a line that holds cells.
* `Image.Renders.readLines`: Reading goes on behind lines that hold cells.
* `Image.ofLines?_of_laidOutAs`: A file is read as its image in every layout.
* `Image.ofLines?_malformed`: A line that holds no record is refused under its number.
* `Image.ofLines?_duplicate`: A line that repeats an address is refused under its number.
* `Image.ofLines?_layout`: The three of them together.
-/

namespace AccumulatorMachine

/-! ## Lines -/

namespace Text

/-- A line with its end is the first line of a text. -/
theorem lines_ended {line : List Char} (h : '\n' ∉ line) (rest : List Char) :
    lines (line ++ '\n' :: rest) = stripReturn line :: lines rest := by
  have hsome := List.splitOn_ne_nil '\n' rest
  simp only [lines, List.splitOn_append_cons_self_of_not_mem h, List.dropLast_cons_of_ne_nil hsome,
    List.getLast?_cons_of_ne_nil hsome, List.map_cons, List.cons_append]

/-- A line without an end is the only line of a text, unless it is empty. -/
theorem lines_unended {line : List Char} (h : '\n' ∉ line) :
    lines line = if line = [] then [] else [line] := by
  rw [lines, List.splitOn_eq_singleton h]
  by_cases hline : line = []
  · simp [hline]
  · simp [hline]

end Text

/-! ## What lines hold -/

/-- A record has a bracket, which is visible. -/
theorem Cell.WrittenAs.visible {cell : Cell} {line : List Char} (h : cell.WrittenAs line) :
    Text.allBlank line = false := by
  obtain ⟨atoms, hspells, hline⟩ := h
  have hbracket : '\x7b' ∈ line := by
    cases hspells <;> cases hline <;> simp [Json.Atom.spelling]
  rw [Text.allBlank, List.all_eq_false]
  exact ⟨_, hbracket, by decide⟩

theorem Cell.WrittenAs.newline_not_mem {cell : Cell} {line : List Char} (h : cell.WrittenAs line)
    (hwords : cell.OfWords) : '\n' ∉ line := by
  obtain ⟨atoms, hspells, hline⟩ := h
  exact hline.newline_not_mem (hspells.legible hwords)

/-- A written cell and the end of its line are the first line of a text. -/
theorem Cell.lines_toRecord {cell : Cell} (hwords : cell.OfWords) (rest : List Char) :
    Text.lines (cell.toRecord.toList ++ '\n' :: rest)
      = cell.toRecord.toList :: Text.lines rest := by
  have hbracket : cell.toRecord.toList = _ ++ ['\x7d'] := String.toList_append
  have hstrip : Text.stripReturn cell.toRecord.toList = cell.toRecord.toList := by
    refine if_neg ?_
    rw [hbracket, List.getLast?_concat]
    decide
  rw [Text.lines_ended (cell.writtenAs_toRecord.newline_not_mem hwords), hstrip]

namespace Image

/-- What a line holds: nothing if it is blank, and a cell if it is a record of it. -/
inductive Holds : List Char → List Cell → Prop
  | blank {line : List Char} (hblank : ∀ c ∈ line, Text.isBlank c = true ∧ c ≠ '\n') : Holds line []
  | record {line : List Char} {cell : Cell} (hrecord : cell.WrittenAs line) : Holds line [cell]

/-- Lines with their ends that hold cells. -/
inductive Renders : List Cell → List Char → Prop
  | nil : Renders [] []
  | line {cells more : List Cell} {line ending text : List Char} (hline : Holds line cells)
      (hending : ending = ['\n'] ∨ ending = ['\r', '\n']) (htext : Renders more text) :
    Renders (cells ++ more) (line ++ (ending ++ text))

/-- A text that holds an image: lines with their ends, and a last one that may be without. -/
def LaidOutAs (image : Image) (text : List Char) : Prop :=
  ∃ cells last ended line, Renders cells ended ∧ Holds line last
    ∧ image.cells = cells ++ last ∧ text = ended ++ line

theorem Renders.laidOutAs {image : Image} {text : List Char} (h : Renders image.cells text) :
    image.LaidOutAs text :=
  ⟨image.cells, [], text, [], h, .blank (by simp), by rw [List.append_nil], by rw [List.append_nil]⟩

namespace Holds

variable {line : List Char} {cells : List Cell}

theorem newline_not_mem (h : Holds line cells) (hwords : ∀ cell ∈ cells, cell.OfWords) :
    '\n' ∉ line := by
  cases h with
  | blank hblank => exact fun hmem => (hblank _ hmem).2 rfl
  | record hrecord => exact hrecord.newline_not_mem (hwords _ (.head _))

theorem stripReturn (h : Holds line cells) (hwords : ∀ cell ∈ cells, cell.OfWords) :
    Holds (Text.stripReturn line) cells := by
  cases h with
  | blank hblank => exact .blank fun c hc => hblank c ((Text.stripReturn_prefix line).subset hc)
  | record hrecord =>
    obtain ⟨atoms, hspells, hline⟩ := hrecord
    exact .record ⟨atoms, hspells, hline.stripReturn (hspells.legible (hwords _ (.head _)))⟩

/-- A line and either of its ends are the first line of a text, which holds the same. -/
theorem lines_ended (h : Holds line cells) (hwords : ∀ cell ∈ cells, cell.OfWords)
    {ending : List Char} (hending : ending = ['\n'] ∨ ending = ['\r', '\n']) (rest : List Char) :
    ∃ first, Holds first cells
      ∧ Text.lines (line ++ (ending ++ rest)) = first :: Text.lines rest := by
  have hnewline := h.newline_not_mem hwords
  rcases hending with rfl | rfl
  · exact ⟨_, h.stripReturn hwords, Text.lines_ended hnewline rest⟩
  · have hboth : '\n' ∉ line ++ ['\r'] := by simp [hnewline]
    have hlines := Text.lines_ended hboth rest
    rw [Text.stripReturn, List.getLast?_concat, if_pos rfl, List.dropLast_concat,
      List.append_assoc] at hlines
    exact ⟨line, h, hlines⟩

/-- Reading a line that holds cells with addresses of their own. -/
theorem readLines (h : Holds line cells) (hwords : ∀ cell ∈ cells, cell.OfWords) {seen : List Int}
    (hnew : ∀ cell ∈ cells, cell.address ∉ seen) (n : Nat) (rest : List (List Char)) :
    readLines n seen (line :: rest)
      = (Image.readLines (n + 1) ((cells.map Cell.address).reverse ++ seen) rest).map
          (cells ++ ·) := by
  cases h with
  | blank hblank =>
    have hall : Text.allBlank line = true := List.all_eq_true.mpr fun c hc => (hblank c hc).1
    rw [Image.readLines, if_pos hall]
    show _ = (Image.readLines (n + 1) seen rest).map ([] ++ ·)
    cases Image.readLines (n + 1) seen rest <;> rfl
  | record hrecord =>
    have hcell := Cell.ofRecord?_of_writtenAs (hwords _ (.head _)) hrecord
    simp only [Image.readLines, hrecord.visible, hcell, hnew _ (.head _), Bool.false_eq_true,
      if_false]
    rfl

end Holds

/-! ## Reading lines -/

/-- The cells of some lines are some more that those behind them have to keep away from. -/
theorem apart_of_nodup {cells more : List Cell} {seen : List Int}
    (hd : ((cells ++ more).map Cell.address).Nodup)
    (hnew : ∀ cell ∈ cells ++ more, cell.address ∉ seen) :
    ∀ cell ∈ more, cell.address ∉ (cells.map Cell.address).reverse ++ seen := by
  intro cell hcell hmem
  rw [List.map_append, List.nodup_append] at hd
  rcases List.mem_append.mp hmem with hmem | hmem
  · exact hd.2.2 _ (List.mem_reverse.mp hmem) _ (List.mem_map_of_mem hcell) rfl
  · exact hnew cell (List.mem_append_right cells hcell) hmem

/-- Reading goes on behind lines that hold cells with addresses of their own. -/
theorem Renders.readLines {cells : List Cell} {text : List Char} (h : Renders cells text)
    (hwords : ∀ cell ∈ cells, cell.OfWords) (hd : (cells.map Cell.address).Nodup)
    {seen : List Int} (hnew : ∀ cell ∈ cells, cell.address ∉ seen) (n : Nat) (rest : List Char) :
    readLines n seen (Text.lines (text ++ rest))
      = (Image.readLines (n + text.count '\n') ((cells.map Cell.address).reverse ++ seen)
          (Text.lines rest)).map (cells ++ ·) := by
  -- Each line adds its addresses to those seen and one to the count, so both are generalized.
  induction h generalizing n seen with
  | nil =>
    show _ = (Image.readLines n seen (Text.lines rest)).map ([] ++ ·)
    cases h : Image.readLines n seen (Text.lines rest) <;> exact h
  | @line cells more line ending text hline hending htext ih =>
    have hhere : ∀ cell ∈ cells, cell ∈ cells ++ more := fun _ => List.mem_append_left more
    have hbehind : ∀ cell ∈ more, cell ∈ cells ++ more := fun _ => List.mem_append_right cells
    have hline' := fun cell hcell => hwords cell (hhere cell hcell)
    have hdmore : (more.map Cell.address).Nodup := by
      rw [List.map_append, List.nodup_append] at hd
      exact hd.2.1
    obtain ⟨first, hholds, hlines⟩ := hline.lines_ended hline' hending (text ++ rest)
    have hstep := hholds.readLines hline' (fun cell hcell => hnew cell (hhere cell hcell)) n
      (Text.lines (text ++ rest))
    have hrest := ih (fun cell hcell => hwords cell (hbehind cell hcell)) hdmore
      (apart_of_nodup hd hnew) (n + 1)
    have hcount : (line ++ (ending ++ text)).count '\n' = 1 + text.count '\n' := by
      have hone : ending.count '\n' = 1 := by rcases hending with rfl | rfl <;> rfl
      rw [List.count_append, List.count_append, hone,
        List.count_eq_zero.mpr (hline.newline_not_mem hline'), Nat.zero_add]
    have hseen : ((cells ++ more).map Cell.address).reverse ++ seen
        = (more.map Cell.address).reverse ++ ((cells.map Cell.address).reverse ++ seen) := by simp
    rw [List.append_assoc, List.append_assoc, hlines, hstep, hrest, hcount, hseen, Nat.add_assoc]
    cases Image.readLines (n + (1 + text.count '\n')) ((more.map Cell.address).reverse
      ++ ((cells.map Cell.address).reverse ++ seen)) (Text.lines rest) <;>
      simp [Except.map]

/-- Reading a last line that holds cells with addresses of their own. -/
theorem Holds.readLast {line : List Char} {cells : List Cell} (h : Holds line cells)
    (hwords : ∀ cell ∈ cells, cell.OfWords) {seen : List Int}
    (hnew : ∀ cell ∈ cells, cell.address ∉ seen) (n : Nat) :
    Image.readLines n seen (Text.lines line) = .ok cells := by
  rw [Text.lines_unended (h.newline_not_mem hwords)]
  by_cases hempty : line = []
  · subst hempty
    cases h with
    | blank _ => rfl
    | record hrecord => cases hrecord.visible
  · rw [if_neg hempty, h.readLines hwords hnew n []]
    simp [Image.readLines, Except.map]

/-- The first line of a text, if it is visible, is the first of its lines. -/
theorem lines_of_firstLine {text : List Char}
    (hvisible : Text.allBlank (Text.firstLine text) = false) :
    ∃ rest, Text.lines text = Text.firstLine text :: rest := by
  rw [Text.firstLine] at hvisible ⊢
  cases hlines : Text.lines text with
  | nil =>
    rw [hlines] at hvisible
    cases hvisible
  | cons line rest => exact ⟨rest, rfl⟩

theorem readLines_malformed {text : List Char} {problem : Json.Problem}
    (hvisible : Text.allBlank (Text.firstLine text) = false)
    (hrecord : Cell.ofRecord? (Text.firstLine text) = .error problem) (n : Nat) (seen : List Int) :
    readLines n seen (Text.lines text) = .error ⟨n, .malformedRecord problem⟩ := by
  obtain ⟨rest, hlines⟩ := lines_of_firstLine hvisible
  simp only [hlines, readLines, hvisible, hrecord, Bool.false_eq_true, if_false]

theorem readLines_duplicate {text : List Char} {cell : Cell}
    (hvisible : Text.allBlank (Text.firstLine text) = false)
    (hrecord : Cell.ofRecord? (Text.firstLine text) = .ok cell) (n : Nat) {seen : List Int}
    (hseen : cell.address ∈ seen) :
    readLines n seen (Text.lines text) = .error ⟨n, .duplicateAddress cell.address⟩ := by
  obtain ⟨rest, hlines⟩ := lines_of_firstLine hvisible
  simp only [hlines, readLines, hvisible, hrecord, hseen, Bool.false_eq_true, if_false, if_true]

/-! ## Files -/

/-- What follows lines with their ends is read as a file of its own, except that the lines have
    taken their numbers and the cells their addresses. -/
theorem Renders.ofLines? {cells : List Cell} {ended rest : List Char} (h : Renders cells ended)
    (hwords : ∀ cell ∈ cells, cell.OfWords) (hd : (cells.map Cell.address).Nodup) {text : String}
    (htext : text.toList = ended ++ rest) :
    Image.ofLines? text = ((Image.readLines (ended.count '\n' + 1)
      (cells.map Cell.address).reverse (Text.lines rest)).map (cells ++ ·)).map Image.mk := by
  rw [Image.ofLines?, htext, h.readLines hwords hd (fun _ _ => List.not_mem_nil),
    List.append_nil, Nat.add_comm]

/-- A file is read as its image in every layout. -/
theorem ofLines?_of_laidOutAs {image : Image} (hwords : image.OfWords)
    (hd : (image.cells.map Cell.address).Nodup) {text : String}
    (h : image.LaidOutAs text.toList) : ofLines? text = .ok image := by
  obtain ⟨cells, last, ended, line, hended, hline, himage, htext⟩ := h
  rw [OfWords, himage] at hwords
  rw [himage] at hd
  have hdcells : (cells.map Cell.address).Nodup := by
    rw [List.map_append, List.nodup_append] at hd
    exact hd.1
  have hapart := apart_of_nodup hd fun _ _ => List.not_mem_nil
  rw [List.append_nil] at hapart
  have hlast := hline.readLast (fun cell hcell => hwords cell (List.mem_append_right cells hcell))
    hapart (ended.count '\n' + 1)
  rw [hended.ofLines? (fun cell hcell => hwords cell (List.mem_append_left last hcell)) hdcells
    htext, hlast]
  simp [Except.map, ← himage]

/-! ## Written files -/

/-- The text of cells as they are written. -/
def written (cells : List Cell) : List Char :=
  cells.flatMap fun cell => cell.toRecord.toList ++ ['\n']

@[simp] theorem written_nil : written [] = [] := rfl

theorem written_cons (cell : Cell) (cells : List Cell) :
    written (cell :: cells) = cell.toRecord.toList ++ '\n' :: written cells := by
  simp [written]

theorem written_append (cells more : List Cell) :
    written (cells ++ more) = written cells ++ written more := List.flatMap_append

theorem toList_toLines (image : Image) : image.toLines.toList = written image.cells := by
  simp [toLines, written, String.toList_join, List.flatMap_map]

theorem renders_written (cells : List Cell) : Renders cells (written cells) := by
  induction cells with
  | nil => exact .nil
  | cons cell cells ih =>
    rw [written_cons]
    exact .line (.record cell.writtenAs_toRecord) (.inl rfl) ih

/-- A written file is one of the layouts of its image. -/
theorem laidOutAs_toLines (image : Image) : image.LaidOutAs image.toLines.toList := by
  rw [toList_toLines]
  exact (renders_written image.cells).laidOutAs

theorem count_written {cells : List Cell} (hwords : ∀ cell ∈ cells, cell.OfWords) :
    (written cells).count '\n' = cells.length := by
  induction cells with
  | nil => rfl
  | cons cell cells ih =>
    have hcell := cell.writtenAs_toRecord.newline_not_mem (hwords cell (.head _))
    rw [written_cons, List.count_append, List.count_eq_zero.mpr hcell, List.count_cons_self,
      ih fun other hother => hwords other (.tail cell hother), Nat.zero_add, List.length_cons]

/-- The layout of a file does not matter, and a line that is refused is refused under its number
    whatever follows it. -/
theorem ofLines?_layout {image : Image} (hwords : image.OfWords)
    (hd : (image.cells.map Cell.address).Nodup) :
    (∀ text : String, image.LaidOutAs text.toList → ofLines? text = .ok image)
      ∧ ∀ text rest : String, Renders image.cells text.toList →
          (∀ problem, Text.allBlank (Text.firstLine rest.toList) = false →
            Cell.ofRecord? (Text.firstLine rest.toList) = .error problem →
            ofLines? (text ++ rest)
              = .error ⟨text.toList.count '\n' + 1, .malformedRecord problem⟩)
          ∧ ∀ cell : Cell, cell.OfWords → cell.WrittenAs (Text.firstLine rest.toList) →
              cell.address ∈ image.cells.map Cell.address →
              ofLines? (text ++ rest)
                = .error ⟨text.toList.count '\n' + 1, .duplicateAddress cell.address⟩ := by
  refine ⟨fun text => ofLines?_of_laidOutAs hwords hd, fun text rest hrenders => ?_⟩
  have hread := hrenders.ofLines? hwords hd (String.toList_append (s := text) (t := rest))
  refine ⟨fun problem hvisible hrecord => ?_, fun cell hcell hrecord hseen => ?_⟩
  · rw [hread, readLines_malformed hvisible hrecord]
    rfl
  · rw [hread, readLines_duplicate hrecord.visible (Cell.ofRecord?_of_writtenAs hcell hrecord) _
      (List.mem_reverse.mpr hseen)]
    rfl

/-- An image that loads its only number. -/
def loadsOnce : Image := ⟨[⟨.code ⟨.read, 2⟩, 0⟩, ⟨.data (-42), 2⟩]⟩

/-- The image in another layout: blank lines, both kinds of line ends, and all keys exchanged in
    the first record. -/
def spaced : String :=
  "\n \x7b\"address\":0,\t\"value\" : \x7b\"address\":2,\"opcode\": \"READ\"\x7d\x7d\r\n\t\r\n"
    ++ "\x7b\"value\" :-42,\"address\":2\x7d\t\n"

theorem renders_spaced : Renders loadsOnce.cells spaced.toList := by
  have hspace : Json.Gap [' '] := by decide
  have htab : Json.Gap ['\t'] := by decide
  have hfirst : Cell.WrittenAs ⟨.code ⟨.read, 2⟩, 0⟩ _ :=
    ⟨_, .exchanged 0 (.exchanged .read 2),
      .cons hspace <| .cons .nil <| .cons .nil <| .cons .nil <| .cons .nil <|
      .cons htab <| .cons hspace <| .cons hspace <| .cons .nil <| .cons .nil <| .cons .nil <|
      .cons .nil <| .cons .nil <| .cons .nil <| .cons hspace <| .cons .nil <| .cons .nil <|
      .nil .nil⟩
  have hsecond : Cell.WrittenAs ⟨.data (-42), 2⟩ _ :=
    ⟨_, .ordered 2 (.data (-42)),
      .cons .nil <| .cons .nil <| .cons hspace <| .cons .nil <| .cons .nil <| .cons .nil <|
      .cons .nil <| .cons .nil <| .cons .nil <| .nil htab⟩
  have hempty : Holds [] [] := .blank (List.forall_mem_nil _)
  have hblank : Holds ['\t'] [] := .blank (List.forall_mem_singleton.mpr (by decide))
  have hlines := Renders.line hempty (.inl rfl) <| .line (.record hfirst) (.inr rfl) <|
    .line hblank (.inr rfl) <| .line (.record hsecond) (.inl rfl) .nil
  have hsame : ∀ text, text = spaced.toList → Renders loadsOnce.cells text →
      Renders loadsOnce.cells spaced.toList := fun _ heq h => heq ▸ h
  exact hsame _ (by decide +kernel) hlines

theorem spaced_read :
    (loadsOnce.OfWords ∧ (loadsOnce.cells.map Cell.address).Nodup)
      ∧ (loadsOnce.LaidOutAs spaced.toList ∧ ofLines? spaced = .ok loadsOnce)
      ∧ Renders loadsOnce.cells spaced.toList ∧ spaced.toList.count '\n' = 4
      ∧ (Text.allBlank (Text.firstLine "oops\n\x7b".toList) = false
        ∧ Cell.ofRecord? (Text.firstLine "oops\n\x7b".toList) = .error .malformed
        ∧ ofLines? (spaced ++ "oops\n\x7b")
            = .error ⟨spaced.toList.count '\n' + 1, .malformedRecord .malformed⟩)
      ∧ Cell.OfWords ⟨.data 0, 2⟩
        ∧ Cell.WrittenAs ⟨.data 0, 2⟩
            (Text.firstLine "\x7b\"value\": 0, \"address\": 2\x7d\noops".toList)
        ∧ (2 : Int) ∈ loadsOnce.cells.map Cell.address
        ∧ ofLines? (spaced ++ "\x7b\"value\": 0, \"address\": 2\x7d\noops")
            = .error ⟨spaced.toList.count '\n' + 1, .duplicateAddress 2⟩ := by
  have hwords : loadsOnce.OfWords := by decide
  have hd : (loadsOnce.cells.map Cell.address).Nodup := by decide
  have hlayout := ofLines?_layout hwords hd
  have hrefused := hlayout.2 spaced
  have hvisible : Text.allBlank (Text.firstLine "oops\n\x7b".toList) = false := by decide
  have hoops : Cell.ofRecord? (Text.firstLine "oops\n\x7b".toList) = .error .malformed := by
    have hline : Text.firstLine "oops\n\x7b".toList = ['o', 'o', 'p', 's'] := by decide +kernel
    rw [hline, Cell.ofRecord?, Json.lexemes_last rfl rfl]
    rfl
  have hcell : Cell.WrittenAs ⟨.data 0, 2⟩
      (Text.firstLine "\x7b\"value\": 0, \"address\": 2\x7d\noops".toList) := by
    have hline : Text.firstLine "\x7b\"value\": 0, \"address\": 2\x7d\noops".toList
        = (Cell.toRecord ⟨.data 0, 2⟩).toList := by decide +kernel
    rw [hline]
    exact Cell.writtenAs_toRecord _
  exact ⟨⟨hwords, hd⟩, ⟨renders_spaced.laidOutAs, hlayout.1 spaced renders_spaced.laidOutAs⟩,
    renders_spaced, by decide +kernel,
    ⟨hvisible, hoops, (hrefused "oops\n\x7b" renders_spaced).1 _ hvisible hoops⟩,
    by decide, hcell, by decide, (hrefused _ renders_spaced).2 _ (by decide) hcell (by decide)⟩

end Image

end AccumulatorMachine
