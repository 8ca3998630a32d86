/-
  Rv32Sim.Proofs.Image.Placement

  Where an image text puts its bytes. What the lines of a text say is read as a sequence of
  bytes with their addresses (`placements`): a line with bytes places them one by one, a line
  with a word places its four bytes, the least significant one first, and addresses go on at 0
  behind the last one. If all words are met at multiples of four, the image shows the last byte
  placed at each address, and how bytes are spread over lines and words does not matter
  (`bytes_placed_exactly`).

  The induction over the lines goes through `Cursor.placeByte`: at a multiple of four a word is
  placed as its bytes are (`Cursor.place_eq_placeBytes`).
-/
import Rv32Sim.Proofs.Image.Grammar

namespace Rv32Sim

namespace Image

open Text

/-! ## What the lines of a text say -/

/-- The lines of a text, without the white space at their ends. -/
def trimmedLines (text : String) : List (List Char) :=
  (text.toList.splitOn '\n').map trim

/-- Reading a line is finding what it says. -/
theorem Item.ofTrimmed_eq_ok_iff {line : List Char} {item : Item} (htrim : Trimmed line) :
    Item.ofTrimmed line = .ok item ↔ Says line item := by
  refine ⟨fun h => ?_, Item.ofTrimmed_of_said⟩
  by_cases hwf : WellFormed line
  · obtain ⟨said, hsaid, -⟩ := exists_said hwf
    have hread := Item.ofTrimmed_of_said hsaid
    rw [h] at hread
    cases hread
    exact hsaid
  · -- a line that is not well formed is an error, so nothing was read
    obtain ⟨e, he⟩ := exists_blames hwf
    rw [Item.ofTrimmed_of_blames htrim he] at h
    cases h

theorem readItems_eq_ok_iff {lines : List (List Char)} {n : Nat} {items : List Item} :
    readItems n lines = .ok items ↔ List.Forall₂ Says (lines.map trim) items := by
  induction lines generalizing n items with
  | nil =>
    rw [readItems, List.map_nil, List.forall₂_nil_left_iff]
    constructor
    · rintro ⟨⟩
      rfl
    · rintro rfl
      rfl
  | cons line lines ih =>
    have hline (item : Item) : Item.ofLine line = .ok item ↔ Says (trim line) item :=
      Item.ofTrimmed_eq_ok_iff (trimmed_trim line)
    rw [readItems, List.map_cons, List.forall₂_cons_left_iff]
    constructor
    · intro h
      cases hread : Item.ofLine line with
      | error e =>
        rw [hread] at h
        cases h
      | ok item =>
        rw [hread] at h
        cases hmore : readItems (n + 1) lines with
        | error e =>
          simp only [hmore] at h
          cases h
        | ok more =>
          simp only [hmore] at h
          cases h
          exact ⟨item, more, (hline item).1 hread, ih.1 hmore, rfl⟩
    · rintro ⟨item, more, hsaid, hmore, rfl⟩
      rw [(hline item).2 hsaid, ih.2 hmore]
      rfl

/-- A text is accepted if all its lines say something and one of them has data. -/
theorem ofText_eq_ok_iff {text : String} {rom : Rom} :
    ofText text = .ok rom ↔
      ∃ items, List.Forall₂ Says (trimmedLines text) items ∧
        (∃ item ∈ items, item.isData = true) ∧ rom = ofItems items := by
  have hlines : trimmedLines text = (Text.lines text.toList).map trim := by
    rw [trimmedLines, lines_eq_splitOn]
  simp only [hlines, ← readItems_eq_ok_iff (n := 1)]
  rw [ofText]
  cases readItems 1 (Text.lines text.toList) with
  | error e => simp
  | ok items =>
    by_cases hdata : ∃ item ∈ items, item.isData = true
    · have hempty : ¬(ofItems items).isEmpty = true := fun h => (isEmpty_ofItems items).1 h hdata
      show (if (ofItems items).isEmpty = true then _ else _) = _ ↔ _
      rw [if_neg hempty]
      constructor
      · rintro ⟨⟩
        exact ⟨items, rfl, hdata, rfl⟩
      · rintro ⟨said, hsaid, -, rfl⟩
        cases hsaid
        rfl
    · have hempty := (isEmpty_ofItems items).2 hdata
      simp only [hempty, if_true]
      refine iff_of_false (fun h => by cases h) ?_
      rintro ⟨said, hsaid, hdata', -⟩
      cases hsaid
      exact hdata hdata'

/-! ## Bytes and their addresses -/

/-- The bytes that an item places, in order. -/
def Item.placed : Item → List Byte
  | .blank | .address _ => []
  | .word w => [w.byte 0, w.byte 1, w.byte 2, w.byte 3]
  | .bytes bs => bs

/-- The current address behind an item that is met at address `a`. -/
def Item.next (a : Word) : Item → Word
  | .blank => a
  | .address b => b
  | .word _ => a + 4
  | .bytes bs => a + BitVec.ofNat 32 bs.length

/-- The current address behind items, the first of them met at address `a`. -/
def addressAfter (a : Word) (items : List Item) : Word := items.foldl Item.next a

/-- Bytes one behind the other from address `a` on. -/
def bytesFrom (a : Word) : List Byte → List (Word × Byte)
  | [] => []
  | b :: bs => (a, b) :: bytesFrom (a + 1) bs

/-- The bytes that items place, with their addresses and in order, the first item being met at
    address `a`. -/
def placements (a : Word) : List Item → List (Word × Byte)
  | [] => []
  | item :: items => bytesFrom a item.placed ++ placements (item.next a) items

/-- Words are met at multiples of four only. -/
def WordsAligned (a : Word) (items : List Item) : Prop :=
  ∀ before w after, items = before ++ .word w :: after → 4 ∣ (addressAfter a before).toNat

theorem wordsAligned_nil (a : Word) : WordsAligned a [] := by
  intro before w after h
  cases before <;> cases h

theorem wordsAligned_cons {a : Word} {item : Item} {items : List Item} :
    WordsAligned a (item :: items) ↔
      (∀ w, item = .word w → 4 ∣ a.toNat) ∧ WordsAligned (item.next a) items := by
  constructor
  · intro h
    refine ⟨fun w hw => h [] w items (by rw [hw]; rfl), ?_⟩
    intro before w after hitems
    exact h (item :: before) w after (by rw [hitems]; rfl)
  · rintro ⟨hfirst, hmore⟩ before w after hitems
    cases before with
    | nil =>
      cases hitems
      exact hfirst w rfl
    | cons first before =>
      cases hitems
      exact hmore before w after rfl

/-! ## Placement byte by byte -/

theorem foldl_placeByte (c : Cursor) (bs : List Byte) :
    bs.foldl Cursor.placeByte c =
      ⟨c.rom.putBytes (bytesFrom c.address bs), c.address + BitVec.ofNat 32 bs.length⟩ := by
  induction bs generalizing c with
  | nil => simp [bytesFrom, Rom.putBytes]
  | cons b bs ih =>
    rw [List.foldl_cons, ih]
    -- lengths of lists are not bounded, but addresses and lengths wrap in the same way
    have hnext : c.address + BitVec.ofNat 32 (b :: bs).length =
        c.address + 1 + BitVec.ofNat 32 bs.length := by
      rw [List.length_cons, Nat.add_comm, BitVec.ofNat_add, ← BitVec.add_assoc]
      rfl
    rw [hnext]
    rfl

namespace Cursor

theorem address_place (c : Cursor) (item : Item) :
    (c.place item).address = item.next c.address := by
  cases item with
  | blank | address _ | word _ => rfl
  | bytes bs =>
    show (bs.foldl placeByte c).address = _
    rw [foldl_placeByte]
    rfl

theorem address_foldl_place (c : Cursor) (items : List Item) :
    (items.foldl place c).address = addressAfter c.address items := by
  induction items generalizing c with
  | nil => rfl
  | cons item items ih =>
    rw [List.foldl_cons, ih, address_place]
    rfl

/-- An item moves on and places its bytes, a word those of its own if it is met at a multiple
    of four. -/
theorem place_eq {c : Cursor} {item : Item}
    (haligned : ∀ w, item = .word w → 4 ∣ c.address.toNat) :
    c.place item =
      ⟨c.rom.putBytes (bytesFrom c.address item.placed), item.next c.address⟩ := by
  cases item with
  | blank | address _ => rfl
  | bytes bs => exact foldl_placeByte c bs
  | word w =>
    have hplaces : bytesFrom c.address (Item.word w).placed =
        [(c.address, w.byte 0), (c.address + 1, w.byte 1), (c.address + 2, w.byte 2),
          (c.address + 3, w.byte 3)] := by
      simp [Item.placed, bytesFrom, BitVec.add_assoc]
    rw [hplaces, Rom.putBytes_eq_insert c.rom w (haligned w rfl)]
    rfl

/-- Met at a multiple of four, a word is placed as a line of its bytes is. -/
theorem place_eq_placeBytes {c : Cursor} {item : Item} (hdata : item.isData = true)
    (haligned : ∀ w, item = .word w → 4 ∣ c.address.toNat) :
    c.place item = item.placed.foldl placeByte c := by
  rw [place_eq haligned, foldl_placeByte]
  cases item with
  | blank | address _ => cases hdata
  | word w => rfl
  | bytes bs => rfl

theorem rom_foldl_place {c : Cursor} {items : List Item} (haligned : WordsAligned c.address items) :
    (items.foldl place c).rom = c.rom.putBytes (placements c.address items) := by
  induction items generalizing c with
  | nil => rfl
  | cons item items ih =>
    rw [wordsAligned_cons] at haligned
    rw [List.foldl_cons, ih (by rw [address_place]; exact haligned.2), place_eq haligned.1,
      placements, Rom.putBytes, Rom.putBytes, Rom.putBytes, List.foldl_append]

/-- Lines of bytes place them one after the other, however they are spread over the lines. -/
theorem foldl_place_bytes (c : Cursor) (bss : List (List Byte)) :
    (bss.map Item.bytes).foldl place c = bss.flatten.foldl placeByte c := by
  rw [List.foldl_map, List.foldl_flatten]
  rfl

end Cursor

/-- Data is replaced by lines of the same bytes. -/
theorem ofItems_append_bytes {before after : List Item} {item : Item} {bss : List (List Byte)}
    (hdata : item.isData = true) (hbytes : bss.flatten = item.placed)
    (haligned : ∀ w, item = .word w → 4 ∣ (addressAfter 0 before).toNat) :
    ofItems (before ++ (bss.map Item.bytes ++ after)) = ofItems (before ++ item :: after) := by
  let c := before.foldl Cursor.place .start
  have haddress : c.address = addressAfter 0 before := Cursor.address_foldl_place .start before
  have hplace : c.place item = (bss.map Item.bytes).foldl Cursor.place c := by
    rw [Cursor.foldl_place_bytes, hbytes, Cursor.place_eq_placeBytes hdata (haddress ▸ haligned)]
  rw [ofItems, ofItems, List.foldl_append, List.foldl_append, List.foldl_append, List.foldl_cons]
  show (after.foldl Cursor.place ((bss.map Item.bytes).foldl Cursor.place c)).rom =
    (after.foldl Cursor.place (c.place item)).rom
  rw [hplace]

/-! ## Texts -/

/-- The parts of a list that is related to another are related to parts of it. -/
theorem exists_append_of_forall₂ {α β : Type} {R : α → β → Prop} {xs ys : List α} {zs : List β}
    (h : List.Forall₂ R (xs ++ ys) zs) :
    ∃ us vs, zs = us ++ vs ∧ List.Forall₂ R xs us ∧ List.Forall₂ R ys vs :=
  ⟨zs.take xs.length, zs.drop xs.length, (List.take_append_drop ..).symm,
    (List.forall₂_take_append zs xs ys h.flip).flip,
    (List.forall₂_drop_append zs xs ys h.flip).flip⟩

/-- A line says one thing. -/
theorem Says.unique {line : List Char} {item other : Item} (h : Says line item)
    (hother : Says line other) : other = item := by
  have hread := Item.ofTrimmed_of_said h
  rw [Item.ofTrimmed_of_said hother] at hread
  exact Except.ok.inj hread

theorem said_unique {lines : List (List Char)} {items others : List Item}
    (h : List.Forall₂ Says lines items) (hothers : List.Forall₂ Says lines others) :
    others = items := by
  induction h generalizing others with
  | nil => exact List.forall₂_nil_left_iff.1 hothers
  | cons hsaid _ ih =>
    cases hothers with
    | cons hother hmore => rw [hsaid.unique hother, ih hmore]

/-- In a text a line with data can be replaced by lines that say the same bytes. -/
theorem ofText_of_same_bytes {text other : String} {rom : Rom} {items : List Item}
    {before pieces after : List (List Char)} {line : List Char} {item : Item}
    {bss : List (List Byte)} (haccepted : ofText text = .ok rom)
    (hitems : List.Forall₂ Says (trimmedLines text) items) (haligned : WordsAligned 0 items)
    (hlines : trimmedLines text = before ++ line :: after) (hline : Says line item)
    (hdata : item.isData = true) (hpieces : List.Forall₂ Says pieces (bss.map .bytes))
    (hbytes : bss.flatten = item.placed)
    (hother : trimmedLines other = before ++ (pieces ++ after)) : ofText other = .ok rom := by
  obtain ⟨said, hsaid, hsome, rfl⟩ := ofText_eq_ok_iff.1 haccepted
  obtain rfl := said_unique hitems hsaid
  rw [hlines] at hitems
  obtain ⟨front, rest, rfl, hfront, hrest⟩ := exists_append_of_forall₂ hitems
  obtain ⟨first, back, hfirst, hback, rfl⟩ := List.forall₂_cons_left_iff.1 hrest
  obtain rfl := hline.unique hfirst
  have hsame : ofItems (front ++ (bss.map .bytes ++ back)) = ofItems (front ++ first :: back) :=
    ofItems_append_bytes hdata hbytes fun w hw => haligned front w back (hw ▸ rfl)
  refine ofText_eq_ok_iff.2 ⟨front ++ (bss.map .bytes ++ back), ?_, ?_, hsame.symm⟩
  · rw [hother]
    exact List.rel_append hfront (List.rel_append hpieces hback)
  · -- the image is not empty, so something was placed
    by_contra hnone
    have hempty := (isEmpty_ofItems _).2 hnone
    rw [hsame] at hempty
    exact (isEmpty_ofItems _).1 hempty hsome

/-- **Every byte is where the text says.** What the lines of an accepted text say is
    determined by them. If all words are met at multiples of four, the image shows at each
    address the last byte that was placed there; the bytes of a memory word that no placement
    touched are zero if another byte of the word was placed, and otherwise the word is absent.
    A line with data, be it a word or bytes, can be replaced by one or more lines of the same
    bytes, those of a word beginning with the least significant one: the image is the same. -/
theorem bytes_placed_exactly {text : String} {rom : Rom} (haccepted : ofText text = .ok rom) :
    ∃ items, (∀ said, List.Forall₂ Says (trimmedLines text) said ↔ said = items) ∧
      (WordsAligned 0 items →
        let placed := placements 0 items
        (∀ a b, lastAt? (· = a) placed = some b → rom.byte? a = some b) ∧
        (∀ a, (∀ p ∈ placed, p.1 ≠ a) → (∃ p ∈ placed, p.1.alignDown = a.alignDown) →
          rom.byte? a = some 0) ∧
        (∀ a, (∀ p ∈ placed, p.1.alignDown ≠ a.alignDown) → rom.word? a = none) ∧
        ∀ before line after pieces item (bss : List (List Byte)) other,
          trimmedLines text = before ++ line :: after → Says line item → item.isData = true →
          List.Forall₂ Says pieces (bss.map .bytes) → bss.flatten = item.placed →
          trimmedLines other = before ++ (pieces ++ after) → ofText other = .ok rom) := by
  obtain ⟨items, hitems, -, hrom⟩ := ofText_eq_ok_iff.1 haccepted
  have hunique (said : List Item) : List.Forall₂ Says (trimmedLines text) said ↔ said = items :=
    ⟨fun hsaid => said_unique hitems hsaid, fun heq => heq ▸ hitems⟩
  refine ⟨items, hunique, fun haligned => ?_⟩
  intro placed
  -- the whole image in one equation: it started without words
  have hbyte (a : Word) : rom.byte? a = (lastAt? (· = a) placed).or
      (if ∃ p ∈ placed, p.1.alignDown = a.alignDown then some 0 else none) := by
    rw [hrom, ofItems, Cursor.rom_foldl_place haligned, Rom.byte?_putBytes, Cursor.start,
      Rom.byte?, Rom.word?_empty]
    rfl
  refine ⟨?_, ?_, ?_, ?_⟩
  · intro a b hlast
    rw [hbyte, hlast, Option.some_or]
  · intro a hnone hsome
    rw [hbyte, (lastAt?_eq_none_iff _).2 hnone, Option.none_or, if_pos hsome]
  · intro a hnone
    have habsent : rom.byte? a = none := by
      have hat : ∀ p ∈ placed, p.1 ≠ a := fun p hp h => hnone p hp (h ▸ rfl)
      rw [hbyte, (lastAt?_eq_none_iff _).2 hat, Option.none_or, if_neg]
      rintro ⟨p, hp, h⟩
      exact hnone p hp h
    exact Option.map_eq_none_iff.1 habsent
  · intro before line after pieces item bss other hlines hline hdata hpieces hbytes hother
    exact ofText_of_same_bytes haccepted hitems haligned hlines hline hdata hpieces hbytes hother

/-- Bytes run past the last address to address 0, where a word goes over the last of them. The
    bytes of this word, on two lines, give the same image. -/
theorem bytes_placed_exactly_of_overlap :
    ∃ rom, ofText "@fffffffe\n01 02 03\n@0\n11223344" = .ok rom ∧
      rom.byte? 0xffffffff = some 2 ∧ rom.byte? 0 = some 0x44 ∧ rom.byte? 0xfffffffc = some 0 ∧
      rom.word? 4 = none ∧ ofText "@fffffffe\n01 02 03\n@0\n44 33\n22 11" = .ok rom := by
  let items : List Item := [.address 0xfffffffe, .bytes [1, 2, 3], .address 0, .word 0x11223344]
  have hitems : List.Forall₂ Says
      (trimmedLines "@fffffffe\n01 02 03\n@0\n11223344") items :=
    readItems_eq_ok_iff (n := 1).1 (by decide)
  have haccepted : ofText "@fffffffe\n01 02 03\n@0\n11223344" = .ok (ofItems items) :=
    ofText_eq_ok_iff.2 ⟨items, hitems, by decide, rfl⟩
  have haligned : WordsAligned 0 items := by
    simp [items, wordsAligned_cons, wordsAligned_nil, Item.next]
  have hread (text : String) (item : Item)
      (h : Item.ofTrimmed (trim text.toList) = .ok item) : Says (trim text.toList) item :=
    (Item.ofTrimmed_eq_ok_iff (trimmed_trim text.toList)).1 h
  have hline : Says "11223344".toList (.word 0x11223344) := hread "11223344" _ (by decide)
  have hpieces : List.Forall₂ Says ["44 33".toList, "22 11".toList]
      ([[0x44, 0x33], [0x22, 0x11]].map Item.bytes) :=
    .cons (hread "44 33" _ (by decide)) (.cons (hread "22 11" _ (by decide)) .nil)
  obtain ⟨said, hunique, hplaced⟩ := bytes_placed_exactly haccepted
  obtain rfl := (hunique items).1 hitems
  obtain ⟨hlast, hzero, habsent, hsame⟩ := hplaced haligned
  have hlist : placements 0 items = [(0xfffffffe, 1), (0xffffffff, 2), (0, 3), (0, 0x44),
      (1, 0x33), (2, 0x22), (3, 0x11)] := by decide
  rw [hlist] at hzero habsent
  refine ⟨ofItems items, haccepted, ?_, ?_, ?_, ?_, ?_⟩
  · exact hlast _ _ (by decide)
  · exact hlast _ _ (by decide)
  · exact hzero 0xfffffffc (by simp) (by simp [Word.alignDown])
  · exact habsent 4 (by simp [Word.alignDown])
  · exact hsame ["@fffffffe".toList, "01 02 03".toList, "@0".toList] _ [] _ _ _ _ (by decide) hline
      (by decide) hpieces (by decide) (by decide)

end Image

end Rv32Sim
