import BtDownloader.Torrent.BdecodeRead

set_option autoImplicit false

/-! # From an `entry` to text and back

* `dictFind_eq`: `dict_find` answers with the value of the first equal key.
* `toEntry_eq`: the `entry` made of a node is the value of the node's item.
* `toEntry_bdecode_bencode`: what `bencode` writes is read back as the same value.
-/

namespace BtDownloader

open Bencoding

namespace BdecodeNode

variable {n : BdecodeNode} {i : Item} {is : List Item} {token offset : Nat} {key : Bytes}

/-! ## Lookups by key -/

/-- The node found for a value, or nothing found for no value. -/
def Finds (found : Option BdecodeNode) (value : Option Item) : Prop :=
  Option.Rel (fun n i => ∃ offset, n.At i offset) found value

theorem isKey_eq {length content : Bytes} (h : (n.goto token).At (.string length content) offset) :
    n.isKey key token = some (decide (content = key)) := by
  obtain ⟨t, next, ht, hn, hbounds, hbytes, -⟩ := h.string_bounds
  have ht : n.tokens[token]? = some t := ht
  have hn : n.tokens[token + 1]? = some next := hn
  have hbytes : n.bytes (t.offset + t.startOffset) content.length = some content := hbytes
  rw [isKey, ht]
  dsimp only [Option.bind_eq_bind, Option.bind_some]
  rw [hn]
  dsimp only [Option.bind_some]
  by_cases hlength : key.length = content.length
  · rw [if_pos (by omega), hlength, hbytes]
    rfl
  · rw [if_neg (by omega)]
    have hne : content ≠ key := fun heq => hlength (by rw [heq])
    rw [decide_eq_false hne]

theorem findFrom_eq (h : n.Rest token is offset) (hturns : Turns false is false) {rounds : Nat}
    (hrounds : is.length < rounds) :
    ∃ found, n.findFrom key rounds token = some found ∧
      Finds found (OrderedMap.find? key (keyed is)) := by
  induction rounds generalizing token is offset with
  | zero => omega
  | succ rounds ih =>
      cases is with
      | nil =>
          obtain ⟨t, ht, htype⟩ := h.getElem?_nil
          refine ⟨none, ?_, Option.Rel.none⟩
          rw [findFrom, ht]
          dsimp only [Option.bind_eq_bind, Option.bind_some]
          rw [if_pos htype]
      | cons i is =>
          -- a key, its value and the rest of the dictionary
          obtain ⟨length, content, v, js, rfl, rfl, hturns'⟩ := turns_cons_cons hturns
          obtain ⟨t, ht, htype, hnext⟩ := h.getElem?_cons
          obtain ⟨t', ht', -, hnext'⟩ := h.tail.getElem?_cons
          have hvalue := h.tail.head
          rw [List.length_cons, List.length_cons] at hrounds
          rw [findFrom, ht]
          dsimp only [Option.bind_eq_bind, Option.bind_some]
          rw [if_neg (by rw [htype]; exact itemType_ne_end _), isKey_eq h.head, hnext]
          dsimp only [Option.bind_some]
          rw [keyed, OrderedMap.find?, itemContent]
          by_cases hkey : content = key
          · rw [if_pos (decide_eq_true hkey), if_pos hkey.symm]
            exact ⟨_, rfl, Option.Rel.some ⟨_, hvalue⟩⟩
          · rw [if_neg (by simpa using hkey), if_neg (Ne.symm hkey), ht']
            dsimp only [Option.bind_some]
            rw [hnext']
            exact ih h.tail.tail hturns' (by omega)

/-- **`dict_find` answers with the value of the first equal key.** -/
theorem dictFind_eq (h : n.At (.sequence true is) offset) (key : Bytes) :
    ∃ found, n.dictFind key = some found ∧ Finds found (OrderedMap.find? key (keyed is)) := by
  have := h.rest.length_lt
  exact findFrom_eq h.rest (h.wellFormed.2 rfl) (by omega)

theorem dictFindType_eq (h : n.At (.sequence true is) offset) (type : TokenType) (key : Bytes) :
    ∃ found, n.dictFindType type key = some found ∧
      Finds found ((OrderedMap.find? key (keyed is)).filter (itemType · = type)) := by
  obtain ⟨found, hfind, hfinds⟩ := dictFind_eq h key
  refine ⟨found.filter (·.type = some type), ?_, ?_⟩
  · rw [dictFindType, hfind]
    rfl
  · unfold Finds at hfinds ⊢
    generalize OrderedMap.find? key (keyed is) = value at hfinds
    cases hfinds with
    | none => exact Option.Rel.none
    | some hat =>
        obtain ⟨offset', hat⟩ := hat
        rw [Option.filter_some, Option.filter_some, hat.type]
        simp only [Option.some.injEq]
        split
        · exact Option.Rel.some ⟨offset', hat⟩
        · exact Option.Rel.none

/-! ## Back to an `entry` -/

/-- A loop over a list, by an invariant `P` of what has been computed of the first items. -/
theorem eachItem_spec {α : Type} {f : Nat → BdecodeNode → α → Option α} {P : Nat → α → Prop}
    (h : n.At (.sequence false is) offset)
    (hf : ∀ k i, is[k]? = some i → ∀ m offset acc, BdecodeNode.At m i offset → P k acc →
      ∃ acc', f k m acc = some acc' ∧ P (k + 1) acc')
    {init : α} (hinit : P 0 init) : ∃ acc, n.eachItem f init = some acc ∧ P is.length acc := by
  -- the loop is at index k, with what it has remembered of its last lookup
  have hloop : ∀ rounds k c acc, c.Sound n 1 is → k ≤ is.length → is.length < k + rounds →
      P k acc → ∃ acc', n.listLoop f rounds k c acc = some acc' ∧ P is.length acc' := by
    intro rounds
    induction rounds with
    | zero =>
        intro k c acc hc hk hrounds
        omega
    | succ rounds ih =>
        intro k c acc hc hk hrounds hacc
        obtain ⟨c', hsize, hc'⟩ := listSize_eq h hc
        rw [listLoop, hsize]
        dsimp only [Option.bind_eq_bind, Option.bind_some]
        by_cases hlt : k < is.length
        · have hi : is[k]? = some is[k] := List.getElem?_eq_getElem hlt
          obtain ⟨c'', offset', hat, hc'', hitem⟩ := listAt_eq h hc' hi
          obtain ⟨acc', hstep, hacc'⟩ := hf k _ hi _ _ _ hitem hacc
          rw [if_pos hlt, hat]
          dsimp only [Option.bind_some]
          rw [hstep]
          dsimp only [Option.bind_some]
          exact ih (k + 1) c'' _ hc'' (by omega) (by omega) hacc'
        · obtain rfl : k = is.length := by omega
          rw [if_neg hlt]
          exact ⟨acc, rfl, hacc⟩
  have hlength := h.rest.length_lt
  exact hloop _ 0 {} init (Lookups.sound_init n 1 is) (Nat.zero_le _) (by omega) hinit

/-- **A loop over a list** does with every node what its item is worth. -/
theorem eachItem_eq {α : Type} {f : Nat → BdecodeNode → α → Option α} {g : Nat → Item → α → α}
    (h : n.At (.sequence false is) offset)
    (hf : ∀ k i, is[k]? = some i → ∀ m offset acc, BdecodeNode.At m i offset →
      f k m acc = some (g k i acc)) (init : α) :
    n.eachItem f init = some (is.zipIdx.foldl (fun acc ik => g ik.2 ik.1 acc) init) := by
  obtain ⟨acc, hacc, hfold⟩ := @eachItem_spec n is offset α f
    (fun k acc => acc = (is.take k).zipIdx.foldl (fun acc ik => g ik.2 ik.1 acc) init) h
    (fun k i hi m offset' acc hm hP => by
      have hk : k < is.length := (List.getElem?_eq_some_iff.mp hi).1
      refine ⟨_, hf k i hi m offset' acc hm, ?_⟩
      rw [List.take_add_one, hi, Option.toList_some, List.zipIdx_append, List.foldl_append, ← hP,
        List.length_take, Nat.min_eq_left hk.le, Nat.zero_add]
      rfl) init rfl
  rw [hacc, hfold, List.take_length]

/-- **A loop over a dictionary** takes the keys with their values. -/
theorem eachPair_eq {α : Type} {f : Bytes → BdecodeNode → α → Option α}
    {g : Bytes → Item → α → α} (h : n.At (.sequence true is) offset)
    (hf : ∀ key, ∀ i ∈ is, ∀ m offset acc, BdecodeNode.At m i offset →
      f key m acc = some (g key i acc)) (init : α) :
    n.eachPair f init = some ((keyed is).foldl (fun acc kv => g kv.1 kv.2 acc) init) := by
  have hturns := h.wellFormed.2 rfl
  -- the loop is at the key of index k, as in a loop over a list
  have hloop : ∀ rounds k c acc, c.Sound n 2 is → k ≤ (keyed is).length →
      (keyed is).length < k + rounds →
      n.dictLoop f rounds k c acc
        = some (((keyed is).drop k).foldl (fun acc kv => g kv.1 kv.2 acc) acc) := by
    intro rounds
    induction rounds with
    | zero =>
        intro k c acc hc hk hrounds
        omega
    | succ rounds ih =>
        intro k c acc hc hk hrounds
        obtain ⟨c', hsize, hc'⟩ := dictSize_eq h hc
        rw [dictLoop, hsize]
        dsimp only [Option.bind_eq_bind, Option.bind_some]
        by_cases hlt : k < (keyed is).length
        · have hi : (keyed is)[k]? = some ((keyed is)[k].1, (keyed is)[k].2) :=
            List.getElem?_eq_getElem hlt
          obtain ⟨length, hdrop⟩ := getElem?_keyed hturns hi
          have hmem : (keyed is)[k].2 ∈ is :=
            List.mem_of_mem_drop (i := 2 * k) (by rw [hdrop]; simp)
          obtain ⟨c'', offset', hat, hc'', hitem⟩ := dictAt_eq h hc' hi
          rw [if_pos hlt, hat]
          dsimp only [Option.bind_some]
          rw [hf _ _ hmem _ _ _ hitem]
          dsimp only [Option.bind_some]
          rw [ih (k + 1) c'' _ hc'' (by omega) (by omega), List.drop_eq_getElem_cons hlt,
            List.foldl_cons]
        · rw [if_neg hlt, List.drop_of_length_le (by omega)]
          rfl
  have hlength := h.rest.length_lt
  have hkeyed := length_keyed hturns
  exact hloop _ 0 {} init (Lookups.sound_init n 2 is) (Nat.zero_le _) (by omega)

theorem foldl_zipIdx_append (is : List Item) (k : Nat) (l : List Entry) :
    (is.zipIdx k).foldl (fun l ik => l ++ [itemValue ik.1]) l = l ++ values is := by
  induction is generalizing k l with
  | nil => simp [values]
  | cons i is ih => rw [List.zipIdx_cons, List.foldl_cons, ih, values]; simp

/-- **The `entry` made of a node is the value of its item.** -/
theorem toEntry_eq (h : n.At i offset) {depth : Nat} (hdepth : i.nesting < depth) :
    n.toEntry depth = some (itemValue i) := by
  induction depth generalizing n i offset with
  | zero => omega
  | succ depth ih =>
      cases i with
      | integer text =>
          rw [toEntry, h.type]
          simp only [itemType, h.intValue, Option.map_some]
          rfl
      | string length content =>
          rw [toEntry, h.type]
          simp only [itemType, h.stringValue, Option.map_some]
          rfl
      -- the items of a container are one level deeper
      | sequence dict is =>
          have hconvert : ∀ i ∈ is, ∀ m offset, BdecodeNode.At m i offset →
              toEntry depth m = some (itemValue i) := by
            intro i hi m offset' hat
            rw [Item.nesting] at hdepth
            refine ih hat ?_
            exact (nestingAll_lt_iff (by omega)).mp (by omega) i hi
          rw [toEntry, h.type]
          cases dict with
          | false =>
              simp only [itemType, containerType, Bool.false_eq_true, if_false]
              rw [@eachItem_eq n is offset _ _ (fun _ i l => l ++ [itemValue i]) h]
              · rw [foldl_zipIdx_append]
                rfl
              · intro k i hi m offset' l hat
                rw [hconvert i (List.mem_of_getElem? hi) m offset' hat]
                rfl
          | true =>
              simp only [itemType, containerType, if_true]
              rw [@eachPair_eq n is offset _ _ (fun key i d => OrderedMap.insert key (itemValue i) d) h]
              · rw [itemValue, pairs_eq, OrderedMap.ofList, List.foldl_map]
                rfl
              · intro key i hi m offset' d hat
                rw [hconvert i hi m offset' hat]
                rfl

end BdecodeNode

/-! ## The root -/

mutual

theorem nesting_lt_count (i : Item) : i.nesting < i.count := by
  cases i with
  | integer text => simp [Item.nesting, Item.count]
  | string length content => simp [Item.nesting, Item.count]
  | sequence dict is =>
      have := nestingAll_le_countAll is
      simp only [Item.nesting, Item.count]
      omega

theorem nestingAll_le_countAll (is : List Item) : nestingAll is ≤ countAll is := by
  cases is with
  | nil => simp [nestingAll]
  | cons i is =>
      have := nesting_lt_count i
      have := nestingAll_le_countAll is
      simp only [nestingAll, countAll]
      omega

end

/-- **A text that is accepted can be turned into an `entry`**: the value of the item it begins
with. -/
theorem toEntry_bdecode {buffer : Bytes} {depthLimit tokenLimit : Nat} {root : BdecodeRoot}
    (h : bdecode buffer depthLimit tokenLimit = (root, none)) :
    ∃ i rest, buffer = i.render ++ rest ∧ i.WellFormed ∧
      (root.node buffer).toEntry root.tokens.length = some (itemValue i) := by
  obtain ⟨-, i, rest, rfl, hwf, -, -, rfl⟩ := item_of_bdecode h
  refine ⟨i, rest, rfl, hwf, BdecodeNode.toEntry_eq (at_rootOf hwf) ?_⟩
  have := nesting_lt_count i
  rw [Decoder.rootOf, List.length_append, length_itemTokens]
  omega

/-- The dictionary with the value `1` of `a`, and a space behind it. -/
theorem toEntry_bdecode_dict : ∃ i rest, ascii "d1:ai1ee " = i.render ++ rest ∧ i.WellFormed ∧
    ((bdecode (ascii "d1:ai1ee ") 3 4).1.node (ascii "d1:ai1ee ")).toEntry
      (bdecode (ascii "d1:ai1ee ") 3 4).1.tokens.length = some (itemValue i) :=
  @toEntry_bdecode (ascii "d1:ai1ee ") 3 4 (bdecode (ascii "d1:ai1ee ") 3 4).1 (by decide +kernel)

/-! ## The value of what is written -/

section

variable (format : Bytes → Item)

mutual

/-- What is read back of an entry: an undefined one is a string by then, and preformatted text
what it says. -/
def Entry.plain : Entry → Entry
  | .undefined => .string []
  | .integer v => .integer v
  | .string s => .string s
  | .list es => .list (plainList es)
  | .dictionary d => .dictionary (plainDict d)
  | .preformatted text => itemValue (format text)
termination_by structural e => e

def plainList : List Entry → List Entry
  | [] => []
  | e :: es => e.plain :: plainList es
termination_by structural es => es

def plainDict : List (Bytes × Entry) → List (Bytes × Entry)
  | [] => []
  | kv :: d => plainPair kv :: plainDict d
termination_by structural d => d

def plainPair : Bytes × Entry → Bytes × Entry
  | (key, e) => (key, e.plain)
termination_by structural kv => kv

end

end

theorem integerValue_integerText {val : Int} (hmin : -2 ^ 63 < val) (hmax : val < 2 ^ 63) :
    integerValue (integerText val) = val := by
  have hsmall : ¬ maxInt64 < decimalValue (decimalText val.natAbs) := by
    rw [decimalValue_decimalText]
    unfold maxInt64
    omega
  by_cases hneg : val < 0
  · rw [integerText, if_pos hneg, integerValue]
    simp only [List.head?_cons, if_true, List.tail_cons]
    rw [if_neg hsmall, decimalValue_decimalText]
    omega
  · rw [integerText, if_neg hneg, integerValue]
    obtain ⟨c, cs, htext⟩ := List.exists_cons_of_ne_nil (decimalText_ne_nil val.natAbs)
    have hc : c ≠ byte '-' := by
      rintro rfl
      have := numeric_of_mem_decimalText (n := val.natAbs) (htext ▸ List.mem_cons_self)
      exact absurd this (by decide)
    have hhead : ¬ (decimalText val.natAbs).head? = some (byte '-') := by
      rw [htext]
      simpa using hc
    rw [if_neg hhead, if_neg hsmall, if_neg hhead, decimalValue_decimalText]
    omega

variable {format : Bytes → Item}

theorem keys_plainDict (d : List (Bytes × Entry)) :
    (plainDict format d).map Prod.fst = d.map Prod.fst := by
  induction d with
  | nil => rfl
  | cons kv d ih =>
      obtain ⟨key, e⟩ := kv
      rw [plainDict, List.map_cons, List.map_cons, ih]
      rfl

mutual

/-- The item of an entry has the entry's value. -/
theorem itemValue_item (e : Entry) (h : e.Valid format) :
    itemValue (e.item format) = e.plain format := by
  cases e with
  | undefined => rfl
  | string s => rfl
  | preformatted text => rfl
  | integer v =>
      obtain ⟨hmin, hmax⟩ := h
      rw [Entry.item, itemValue, writeInteger_eq hmin hmax,
        integerValue_integerText (by omega) hmax]
      rfl
  | list es =>
      rw [Entry.item, itemValue, values_listItems es h]
      rfl
  | dictionary d =>
      have hsorted : OrderedMap.Sorted (plainDict format d) := by
        unfold OrderedMap.Sorted
        rw [keys_plainDict]
        exact h.1
      rw [Entry.item, itemValue, pairs_dictItems d h.2, OrderedMap.ofList_eq _ hsorted]
      rfl

theorem values_listItems (es : List Entry) (h : ListValid format es) :
    values (listItems format es) = plainList format es := by
  cases es with
  | nil => rfl
  | cons e es => rw [listItems, values, itemValue_item e h.1, values_listItems es h.2, plainList]

theorem pairs_dictItems (d : List (Bytes × Entry)) (h : DictValid format d) :
    pairs (dictItems format d) = plainDict format d := by
  cases d with
  | nil => rfl
  | cons kv d =>
      rw [dictItems, pairs_pairItems_append kv h.1, pairs_dictItems d h.2, plainDict]

theorem pairs_pairItems_append (kv : Bytes × Entry) (h : PairValid format kv) {is : List Item} :
    pairs (pairItems format kv ++ is) = plainPair format kv :: pairs is := by
  obtain ⟨key, e⟩ := kv
  rw [pairItems, List.cons_append, List.cons_append, List.nil_append, pairs, itemValue_item e h.2]
  rfl

end

/-- **What `bencode` writes is read back as the same value**, where the limits of `bdecode` admit
it. -/
theorem toEntry_bdecode_bencode {e : Entry} {depthLimit tokenLimit : Nat} (h : e.Valid format)
    (hlength : (bencode e).length ≤ maxOffset) (hdepth : (e.item format).nesting < depthLimit)
    (hcount : (e.item format).count ≤ tokenLimit) :
    ∃ root, bdecode (bencode e) depthLimit tokenLimit = (root, none) ∧
      (root.node (bencode e)).toEntry root.tokens.length = some (e.plain format) := by
  have htext : bencode e = (e.item format).render ++ [] := by
    rw [bencode_eq_render e h, List.append_nil]
  have hwf := wellFormed_item e h
  rw [htext] at hlength
  rw [htext, ← itemValue_item e h]
  refine ⟨Decoder.rootOf (e.item format), bdecode_render hlength hwf hdepth hcount, ?_⟩
  refine BdecodeNode.toEntry_eq (at_rootOf hwf) ?_
  have := nesting_lt_count (e.item format)
  rw [Decoder.rootOf, List.length_append, length_itemTokens]
  omega

/-- A dictionary in a list. -/
theorem toEntry_bdecode_bencode_list : ∃ root,
    bdecode (bencode (.list [.dictionary [(ascii "a", .integer (-7))], .undefined])) 3 7 = (root, none) ∧
      (root.node (bencode (.list [.dictionary [(ascii "a", .integer (-7))], .undefined]))).toEntry
        root.tokens.length = some (.list [.dictionary [(ascii "a", .integer (-7))], .string []]) := by
  refine @toEntry_bdecode_bencode (fun _ => .integer []) _ 3 7 ?_ ?_ ?_ ?_
  · simp only [Entry.Valid, ListValid, DictValid, PairValid, OrderedMap.Sorted]
    decide
  · decide +kernel
  · decide +kernel
  · decide +kernel

end BtDownloader
