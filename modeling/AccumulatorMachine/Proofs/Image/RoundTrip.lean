import AccumulatorMachine.Proofs.Image.Files
import Mathlib.Data.Nat.Find

/-!
# Image Files Read Back

An image that is written to a file and read again.

Writing never fails and an image may name an address twice, but a file may not. So the file
reads back as the same image, cell for cell, if no two cells have one address, and otherwise
reading stops in the line of the first cell whose address another one has before it. There is
nothing else that can go wrong with a written file, which is one of the layouts of its image.

A cell has to be made of words for that, as the cells of the machine are. What the reader
accepts, from whatever text, is made of words and names no address twice, so it can always be
written and read again.

## Main definitions

* `Image.Repeats`: A cell with the address of an earlier cell.

## Theorems

* `Cell.ofWords_of_ofRecord?`: A cell that has been read is made of words.
* `Image.exists_first_repeat`: An image without pairwise different addresses has a first cell
  with the address of an earlier one.
* `Image.toLines_reads_back`: What reading a written image gives.
-/

namespace AccumulatorMachine

open Json (Lexeme Problem Value)

namespace Cell

/-! ## A record that has been read -/

/-- The parts of a record that have been read are made of words. -/
structure Draft.OfWords (draft : Draft) : Prop where
  value : ∀ value ∈ draft.value, value.OfWords
  address : ∀ address ∈ draft.address, Word.InRange address

theorem inRange_of_word? {value : Value} {n : Int} (h : Instruction.word? value = some n) :
    Word.InRange n := by
  cases value with
  | integer m =>
    obtain ⟨rfl, hrange⟩ := Word.checked_eq_some_iff.mp h
    exact hrange
  | _ => cases h

theorem inRange_of_instruction {value : Value} {instruction : Instruction}
    (h : Instruction.ofValue? value = some instruction) : Word.InRange instruction.operand := by
  unfold Instruction.ofValue? at h
  split at h
  · simp only [Option.bind_eq_bind, Option.bind_eq_some_iff, Option.pure_def,
      Option.some.injEq] at h
    obtain ⟨_, _, _, _, _, _, operand, hoperand, rfl⟩ := h
    exact inRange_of_word? hoperand
  · simp only [Option.bind_eq_bind, Option.bind_eq_some_iff, Option.pure_def,
      Option.some.injEq] at h
    obtain ⟨_, _, operand, hoperand, rfl⟩ := h
    exact inRange_of_word? hoperand
  · cases h

theorem ofWords_of_ofValue? {value : Value} {contents : CellValue}
    (h : CellValue.ofValue? value = some contents) : contents.OfWords := by
  unfold CellValue.ofValue? at h
  split at h
  · obtain ⟨n, hn, rfl⟩ := Option.map_eq_some_iff.mp h
    obtain ⟨rfl, hrange⟩ := Word.checked_eq_some_iff.mp hn
    exact hrange
  · obtain ⟨instruction, hread, rfl⟩ := Option.map_eq_some_iff.mp h
    exact inRange_of_instruction hread

theorem ofWords_of_readValue {text rest : List Lexeme} {value : CellValue}
    (h : readValue text = .ok (value, rest)) : value.OfWords := by
  obtain ⟨⟨found, after⟩, -, hfound⟩ := Outcome.bind_ok h
  cases hread : CellValue.ofValue? found with
  | none => simp [hread] at hfound
  | some contents =>
    simp only [hread] at hfound
    cases hfound
    exact ofWords_of_ofValue? hread

theorem inRange_of_readAddress {text rest : List Lexeme} {address : Int}
    (h : readAddress text = .ok (address, rest)) : Word.InRange address := by
  unfold readAddress at h
  split at h
  · cases h
  · obtain ⟨value, -, hvalue⟩ := Outcome.bind_ok h
    split at hvalue
    · next hread =>
      cases hvalue
      exact inRange_of_word? hread
    · cases hvalue
  · obtain ⟨_, -, hmismatch⟩ := Outcome.bind_ok h
    cases hmismatch
  all_goals cases h

theorem Draft.OfWords.readField {draft draft' : Draft} {key : String} {text rest : List Lexeme}
    (hdraft : draft.OfWords) (h : Cell.readField draft key text = .ok (draft', rest)) :
    draft'.OfWords := by
  unfold Cell.readField at h
  split at h
  · split at h
    · cases h
    · obtain ⟨_, -, h⟩ := Outcome.bind_ok h
      obtain ⟨⟨value, _⟩, hvalue, h⟩ := Outcome.bind_ok h
      cases h
      exact ⟨fun _ hmem => Option.some.inj hmem ▸ ofWords_of_readValue hvalue, hdraft.address⟩
  · split at h
    · split at h
      · cases h
      · obtain ⟨_, -, h⟩ := Outcome.bind_ok h
        obtain ⟨⟨address, _⟩, haddress, h⟩ := Outcome.bind_ok h
        cases h
        exact ⟨hdraft.value, fun _ hmem => Option.some.inj hmem ▸ inRange_of_readAddress haddress⟩
    · obtain ⟨_, -, h⟩ := Outcome.bind_ok h
      obtain ⟨_, -, h⟩ := Outcome.bind_ok h
      cases h
      exact hdraft

theorem Draft.OfWords.finish {draft : Draft} {cell : Cell} (hdraft : draft.OfWords)
    (h : draft.finish = .ok cell) : cell.OfWords := by
  unfold Draft.finish at h
  split at h
  · next hvalue haddress =>
    cases h
    exact ⟨hdraft.value _ hvalue, hdraft.address _ haddress⟩
  · cases h

theorem Draft.OfWords.readFields {draft : Draft} {text rest : List Lexeme} {cell : Cell}
    (hdraft : draft.OfWords) (h : Cell.readFields draft text = .ok (cell, rest)) :
    cell.OfWords := by
  fun_induction Cell.readFields draft text with
  | case2 draft key _ text draft' after hread _ ih => exact ih (hdraft.readField hread) h
  | case3 draft key _ text draft' after hread =>
    obtain ⟨found, hfound, hcell⟩ := Outcome.map_ok h
    cases hcell
    exact (hdraft.readField hread).finish hfound
  | _ => cases h

theorem ofWords_of_readPair {text rest : List Lexeme} {cell : Cell}
    (h : readPair text = .ok (cell, rest)) : cell.OfWords := by
  unfold readPair at h
  split at h
  · cases h
  · obtain ⟨⟨value, after⟩, hvalue, h⟩ := Outcome.bind_ok h
    split at h
    · next hcomma =>
      cases hcomma
      obtain ⟨⟨address, after⟩, haddress, h⟩ := Outcome.bind_ok h
      split at h
      · next hclose =>
        cases hclose
        cases h
        exact ⟨ofWords_of_readValue hvalue, inRange_of_readAddress haddress⟩
      all_goals cases h
    all_goals cases h

/-- A cell that has been read is made of words. -/
theorem ofWords_of_ofRecord? {text : List Char} {cell : Cell} (h : ofRecord? text = .ok cell) :
    cell.OfWords := by
  obtain ⟨⟨found, rest⟩, hread, hcell⟩ := Outcome.bind_ok h
  have hsame : found = cell := by
    split at hcell <;> cases hcell
    next heq =>
      cases heq
      rfl
  subst hsame
  have hempty : Draft.empty.OfWords := ⟨fun _ hmem => (nomatch hmem), fun _ hmem => (nomatch hmem)⟩
  unfold readRecord at hread
  split at hread
  · cases hread
  · cases hread
  · exact hempty.readFields hread
  · exact ofWords_of_readPair hread
  · obtain ⟨_, -, hmismatch⟩ := Outcome.bind_ok hread
    cases hmismatch
  · obtain ⟨_, -, hmismatch⟩ := Outcome.bind_ok hread
    cases hmismatch
  · cases hread

end Cell

namespace Image

/-! ## Addresses -/

theorem ofLines?_toLines_of_nodup {image : Image} (hwords : image.OfWords)
    (hd : (image.cells.map Cell.address).Nodup) : ofLines? image.toLines = .ok image :=
  ofLines?_of_laidOutAs hwords hd image.laidOutAs_toLines

/-- The cell at index `k` has the address `a`, and so does one of the cells before it. -/
def Repeats (image : Image) (k : Nat) (a : Int) : Prop :=
  image.cells[k]?.map Cell.address = some a ∧ a ∈ (image.cells.take k).map Cell.address

theorem nodup_take_of_not_repeats (image : Image) (k : Nat)
    (h : ∀ j < k, ∀ a, ¬ image.Repeats j a) : ((image.cells.take k).map Cell.address).Nodup := by
  induction k with
  | zero => simp
  | succ k ih =>
    have hbefore := ih fun j hj => h j (by omega)
    rw [List.take_add_one]
    cases hcell : image.cells[k]? with
    | none => simpa [hcell] using hbefore
    | some cell =>
      have hnew : cell.address ∉ (image.cells.take k).map Cell.address :=
        fun hmem => h k (by omega) cell.address ⟨by rw [hcell]; rfl, hmem⟩
      rw [Option.toList_some, List.map_append, List.nodup_append]
      refine ⟨hbefore, by simp, ?_⟩
      rintro a ha b hb rfl
      simp only [List.map_cons, List.map_nil, List.mem_singleton] at hb
      exact hnew (hb ▸ ha)

/-- An image without pairwise different addresses has a first cell with the address of an earlier
    one. -/
theorem exists_first_repeat {image : Image} (h : ¬ (image.cells.map Cell.address).Nodup) :
    ∃ k a, image.Repeats k a ∧ ∀ j < k, ∀ b, ¬ image.Repeats j b := by
  classical
  have hsome : ∃ k a, image.Repeats k a := by
    by_contra hnone
    refine h ?_
    have hall := nodup_take_of_not_repeats image image.cells.length
      fun j _ a hrepeats => hnone ⟨j, a, hrepeats⟩
    rwa [List.take_length] at hall
  obtain ⟨a, ha⟩ := Nat.find_spec hsome
  exact ⟨Nat.find hsome, a, ha, fun j hj b hb => Nat.find_min hsome hj ⟨b, hb⟩⟩

theorem ofLines?_toLines_of_repeats {image : Image} (hwords : image.OfWords) {k : Nat} {a : Int}
    (hrepeats : image.Repeats k a) (hfirst : ∀ j < k, ∀ b, ¬ image.Repeats j b) :
    ofLines? image.toLines = .error ⟨k + 1, .duplicateAddress a⟩ := by
  obtain ⟨haddress, hmem⟩ := hrepeats
  obtain ⟨cell, hcell, rfl⟩ := Option.map_eq_some_iff.mp haddress
  obtain ⟨hk, hget⟩ := List.getElem?_eq_some_iff.mp hcell
  have hcellwords := hwords cell (List.mem_of_getElem? hcell)
  have hbefore : ∀ other ∈ image.cells.take k, other.OfWords :=
    fun other hother => hwords other (List.mem_of_mem_take hother)
  -- The cells before the repetition are read, and the line after them is refused.
  obtain ⟨rest, hrest⟩ : ∃ rest,
      rest = cell.toRecord.toList ++ '\n' :: written (image.cells.drop (k + 1)) := ⟨_, rfl⟩
  have hsplit : image.toLines.toList = written (image.cells.take k) ++ rest := by
    rw [hrest, toList_toLines, ← written_cons, ← written_append, ← hget,
      ← List.drop_eq_getElem_cons hk, List.take_append_drop]
  have hline : Text.firstLine rest = cell.toRecord.toList := by
    rw [hrest, Text.firstLine, Cell.lines_toRecord hcellwords]
    rfl
  have hvisible : Text.allBlank (Text.firstLine rest) = false := by
    rw [hline]
    exact cell.writtenAs_toRecord.visible
  have hrecord : Cell.ofRecord? (Text.firstLine rest) = .ok cell := by
    rw [hline]
    exact Cell.ofRecord?_toRecord hcellwords
  rw [(renders_written _).ofLines? hbefore (nodup_take_of_not_repeats image k hfirst) hsplit,
    readLines_duplicate hvisible hrecord _ (List.mem_reverse.mpr hmem), count_written hbefore,
    List.length_take_of_le (by omega)]
  rfl

theorem ofWords_of_readLines {line : Nat} {seen : List Int} {texts : List (List Char)}
    {cells : List Cell} (h : readLines line seen texts = .ok cells) :
    (∀ cell ∈ cells, cell.OfWords ∧ cell.address ∉ seen) ∧ (cells.map Cell.address).Nodup := by
  fun_induction readLines line seen texts generalizing cells with
  | case1 =>
    cases h
    simp
  | case2 line seen text rest hblank ih => exact ih h
  | case3 => cases h
  | case4 => cases h
  | case5 line seen text rest hblank cell hread hnew ih =>
    obtain ⟨found, hfound, rfl⟩ := Outcome.map_ok h
    obtain ⟨hrest, hd⟩ := ih hfound
    have hdistinct : cell.address ∉ found.map Cell.address := by
      intro hmem
      obtain ⟨other, hother, heq⟩ := List.mem_map.mp hmem
      exact (hrest other hother).2 (heq ▸ List.mem_cons_self)
    refine ⟨fun other hother => ?_, List.nodup_cons.mpr ⟨hdistinct, hd⟩⟩
    rcases List.mem_cons.mp hother with rfl | hother
    · exact ⟨Cell.ofWords_of_ofRecord? hread, hnew⟩
    · obtain ⟨hwords, hapart⟩ := hrest other hother
      exact ⟨hwords, fun hseen => hapart (.tail _ hseen)⟩

theorem distinct_of_ofLines? {text : String} {image : Image} (h : ofLines? text = .ok image) :
    image.OfWords ∧ (image.cells.map Cell.address).Nodup := by
  obtain ⟨cells, hcells, rfl⟩ := Outcome.map_ok h
  obtain ⟨hwords, hd⟩ := ofWords_of_readLines hcells
  exact ⟨fun cell hcell => (hwords cell hcell).1, hd⟩

/-- What reading a written image gives, and why whatever has been read can be written and read
    again. -/
theorem toLines_reads_back :
    (∀ image : Image, image.OfWords →
      ((image.cells.map Cell.address).Nodup → ofLines? image.toLines = .ok image)
        ∧ (¬ (image.cells.map Cell.address).Nodup →
            ∃ k a, image.Repeats k a ∧ (∀ j < k, ∀ b, ¬ image.Repeats j b)
              ∧ ofLines? image.toLines = .error ⟨k + 1, .duplicateAddress a⟩))
      ∧ ∀ (text : String) (image : Image), ofLines? text = .ok image →
          (image.cells.map Cell.address).Nodup ∧ ofLines? image.toLines = .ok image := by
  refine ⟨fun image hwords => ⟨ofLines?_toLines_of_nodup hwords, fun hd => ?_⟩, ?_⟩
  · obtain ⟨k, a, hrepeats, hfirst⟩ := exists_first_repeat hd
    exact ⟨k, a, hrepeats, hfirst, ofLines?_toLines_of_repeats hwords hrepeats hfirst⟩
  · intro text image hread
    obtain ⟨hwords, hd⟩ := distinct_of_ofLines? hread
    exact ⟨hd, ofLines?_toLines_of_nodup hwords hd⟩

/-- An image of the extreme words. -/
def extremes : Image :=
  ⟨[⟨.code ⟨.skip .signedOrZero true, Word.minimum⟩, Word.maximum⟩,
    ⟨.data Word.minimum, Word.minimum⟩, ⟨.data 0, -1⟩]⟩

/-- An image that defines the address one twice. -/
def twice : Image := ⟨[⟨.data 7, 1⟩, ⟨.code ⟨.halt, 0⟩, 2⟩, ⟨.data 8, 1⟩, ⟨.data 9, 2⟩]⟩

/-- A file in free layout: a blank line, a record with its fields in another order, and one
    without keys. -/
def freeLayout : String :=
  "\n\x7b\"address\":-4, \"value\" : 7, \"note\": null\x7d\n [ 9 ,5] \r\n"

theorem ofLines?_freeLayout : ofLines? freeLayout = .ok ⟨[⟨.data 7, -4⟩, ⟨.data 9, 5⟩]⟩ :=
  Outcome.ok_of_toOption (by decide +kernel)

theorem extremes_read_back :
    (extremes.OfWords ∧ (extremes.cells.map Cell.address).Nodup
        ∧ ofLines? extremes.toLines = .ok extremes)
      ∧ (twice.OfWords ∧ ¬ (twice.cells.map Cell.address).Nodup
        ∧ ∃ k a, twice.Repeats k a ∧ (∀ j < k, ∀ b, ¬ twice.Repeats j b)
            ∧ ofLines? twice.toLines = .error ⟨k + 1, .duplicateAddress a⟩)
      ∧ ofLines? freeLayout = .ok ⟨[⟨.data 7, -4⟩, ⟨.data 9, 5⟩]⟩
        ∧ ([-4, 5] : List Int).Nodup
        ∧ ofLines? (toLines ⟨[⟨.data 7, -4⟩, ⟨.data 9, 5⟩]⟩)
            = .ok ⟨[⟨.data 7, -4⟩, ⟨.data 9, 5⟩]⟩ :=
  ⟨⟨by decide, by decide, (toLines_reads_back.1 extremes (by decide)).1 (by decide)⟩,
    ⟨by decide, by decide, (toLines_reads_back.1 twice (by decide)).2 (by decide)⟩,
    ofLines?_freeLayout, toLines_reads_back.2 freeLayout _ ofLines?_freeLayout⟩

end Image

end AccumulatorMachine
