import BtDownloader.Torrent.BdecodeNode

set_option autoImplicit false

/-! # What a decoded tree says

A node stands for an item (`BdecodeNode.At`), and every accessor answers with what the item has.
The answers of `listAt`, `listSize`, `dictAt` and `dictSize` do not depend on the lookups a node
remembers, as long as these are right (`Lookups.Sound`), which they stay.
-/

namespace BtDownloader

open Bencoding

/-! ## The value of an item -/

/-- The value of the text of an integer. One that is too large counts as `0`. -/
def integerValue (text : Bytes) : Int :=
  let digits := if text.head? = some (byte '-') then text.tail else text
  if maxInt64 < decimalValue digits then 0
  else if text.head? = some (byte '-') then -decimalValue digits else decimalValue digits

def itemContent : Item → Bytes
  | .string _ content => content
  | _ => []

def itemType : Item → TokenType
  | .integer _ => .integer
  | .string _ _ => .string
  | .sequence dict _ => containerType dict

mutual

/-- The value of an item. Of equal keys the last one counts. -/
def itemValue : Item → Entry
  | .integer text => .integer (integerValue text)
  | .string _ content => .string content
  | .sequence dict items =>
      if dict then .dictionary (OrderedMap.ofList (pairs items)) else .list (values items)
termination_by structural i => i

def values : List Item → List Entry
  | [] => []
  | i :: is => itemValue i :: values is
termination_by structural is => is

/-- Keys and values, in turns. -/
def pairs : List Item → List (Bytes × Entry)
  | k :: v :: is => (itemContent k, itemValue v) :: pairs is
  | _ => []
termination_by structural is => is

end

/-- The keys of a dictionary with the items of their values. -/
def keyed : List Item → List (Bytes × Item)
  | k :: v :: is => (itemContent k, v) :: keyed is
  | _ => []

/-- In a dictionary every key has a value. -/
theorem turns_cons_cons {k : Item} {is : List Item} (h : Turns false (k :: is) false) :
    ∃ length content v js, k = .string length content ∧ is = v :: js ∧ Turns false js false := by
  obtain ⟨hkey, h⟩ := h
  cases k with
  | integer text => simp [Item.isString] at hkey
  | sequence dict items => simp [Item.isString] at hkey
  | string length content =>
      cases is with
      | nil => simp [Turns] at h
      | cons v js => exact ⟨length, content, v, js, rfl, rfl, h.2⟩

theorem pairs_eq (is : List Item) : pairs is = (keyed is).map fun kv => (kv.1, itemValue kv.2) := by
  induction is using keyed.induct with
  | case1 k v is ih => simp [pairs, keyed, ih]
  | case2 is hshort =>
      match is, hshort with
      | [], _ => rfl
      | [k], _ => rfl
      | k :: v :: is, hshort => exact absurd rfl (hshort k v is)

theorem length_keyed {is : List Item} (h : Turns false is false) :
    2 * (keyed is).length = is.length := by
  induction is using keyed.induct with
  | case1 k v is ih =>
      obtain ⟨_, _, _, _, _, heq, hturns⟩ := turns_cons_cons h
      obtain ⟨rfl, rfl⟩ := List.cons.inj heq
      have := ih hturns
      simp only [keyed, List.length_cons]
      omega
  | case2 is hshort =>
      match is, hshort with
      | [], _ => rfl
      | [k], _ =>
          obtain ⟨_, _, _, _, _, heq, _⟩ := turns_cons_cons h
          cases heq
      | k :: v :: is, hshort => exact absurd rfl (hshort k v is)

/-- The key and the value at a position. -/
theorem getElem?_keyed {is : List Item} {key : Bytes} {v : Item} {k : Nat}
    (h : Turns false is false) (hk : (keyed is)[k]? = some (key, v)) :
    ∃ length, is.drop (2 * k) = .string length key :: v :: is.drop (2 * k + 2) := by
  induction k generalizing is with
  | zero =>
      cases is with
      | nil => simp [keyed] at hk
      | cons i is =>
          obtain ⟨length, content, v', js, rfl, rfl, -⟩ := turns_cons_cons h
          simp only [keyed, itemContent, List.length_cons, Nat.zero_lt_succ,
            List.getElem?_eq_getElem, List.getElem_cons_zero, Option.some.injEq,
            Prod.mk.injEq] at hk
          obtain ⟨rfl, rfl⟩ := hk
          exact ⟨length, rfl⟩
  | succ k ih =>
      cases is with
      | nil => simp [keyed] at hk
      | cons i is =>
          obtain ⟨length, content, v', js, rfl, rfl, hturns⟩ := turns_cons_cons h
          obtain ⟨length', hdrop⟩ := ih hturns (by simpa [keyed] using hk)
          exact ⟨length', by simpa [Nat.mul_succ] using hdrop⟩

/-! ## Tokens of an item -/

theorem itemTokens_eq_cons (offset : Nat) (i : Item) : ∃ t rest,
    itemTokens offset i = t :: rest ∧ t.offset = offset ∧ t.type = itemType i ∧
      t.nextItem = i.count := by
  cases i with
  | integer text => exact ⟨_, _, rfl, rfl, rfl, rfl⟩
  | string length content => exact ⟨_, _, rfl, rfl, rfl, rfl⟩
  | sequence dict items => exact ⟨_, _, rfl, rfl, rfl, rfl⟩

theorem itemType_ne_end (i : Item) : itemType i ≠ .end := by
  cases i with
  | integer text => simp [itemType]
  | string length content => simp [itemType]
  | sequence dict items => cases dict <;> simp [itemType, containerType]

namespace BdecodeNode

/-- The items `is` of a container are those from `token` on, up to its end; their text starts at
`offset`. -/
structure Rest (n : BdecodeNode) (token : Nat) (is : List Item) (offset : Nat) : Prop where
  tokens : ∃ stop post, n.tokens.drop token = allTokens offset is ++ stop :: post ∧
    stop.type = .end ∧ stop.offset = offset + (renderAll is).length
  text : ∃ rest, n.buffer.drop offset = renderAll is ++ rest
  wellFormed : AllWellFormed is

/-- The node stands for the item `i`, whose text starts at `offset`. -/
structure At (n : BdecodeNode) (i : Item) (offset : Nat) : Prop where
  tokens : ∃ next post, n.tokens.drop n.tokenIdx = itemTokens offset i ++ next :: post ∧
    next.offset = offset + i.render.length
  text : ∃ rest, n.buffer.drop offset = i.render ++ rest
  wellFormed : i.WellFormed

variable {n : BdecodeNode} {i : Item} {is : List Item} {token offset : Nat}

theorem getElem?_of_drop {α : Type} {l : List α} {k j : Nat} {m : List α} (h : l.drop k = m) :
    l[k + j]? = m[j]? := by
  rw [← h, List.getElem?_drop]

namespace Rest

/-- The first of the items. -/
theorem head (h : n.Rest token (i :: is) offset) : (n.goto token).At i offset := by
  obtain ⟨stop, post, htokens, -, hstop⟩ := h.tokens
  obtain ⟨rest, htext⟩ := h.text
  refine ⟨?_, ⟨renderAll is ++ rest, by rw [goto, htext, renderAll, List.append_assoc]⟩,
    h.wellFormed.1⟩
  cases is with
  | nil =>
      refine ⟨stop, post, by rw [goto, htokens]; simp [allTokens], ?_⟩
      rw [hstop, renderAll, renderAll, List.append_nil]
  | cons j is =>
      obtain ⟨t, ts, hcons, hoffset, -, -⟩ := itemTokens_eq_cons (offset + i.render.length) j
      refine ⟨t, ts ++ (allTokens (offset + i.render.length + j.render.length) is ++ stop :: post),
        ?_, hoffset⟩
      rw [goto, htokens, allTokens, allTokens, hcons]
      simp

/-- The items behind the first one. -/
theorem tail (h : n.Rest token (i :: is) offset) :
    n.Rest (token + i.count) is (offset + i.render.length) := by
  obtain ⟨stop, post, htokens, htype, hstop⟩ := h.tokens
  obtain ⟨rest, htext⟩ := h.text
  refine ⟨⟨stop, post, ?_, htype, ?_⟩, ⟨rest, ?_⟩, h.wellFormed.2⟩
  · rw [← List.drop_drop, htokens, allTokens, List.append_assoc,
      List.drop_left' (length_itemTokens offset i)]
  · rw [hstop, renderAll, List.length_append]
    omega
  · rw [← List.drop_drop, htext, renderAll, List.append_assoc, List.drop_left' rfl]

/-- The token of the first item. -/
theorem getElem?_cons (h : n.Rest token (i :: is) offset) :
    ∃ t, n.tokens[token]? = some t ∧ t.type = itemType i ∧ t.nextItem = i.count := by
  obtain ⟨stop, post, htokens, -⟩ := h.tokens
  obtain ⟨t, ts, hcons, -, htype, hnext⟩ := itemTokens_eq_cons offset i
  refine ⟨t, ?_, htype, hnext⟩
  have := getElem?_of_drop (j := 0) htokens
  rw [allTokens, hcons] at this
  exact this

/-- Behind the last item the container ends. -/
theorem getElem?_nil (h : n.Rest token [] offset) :
    ∃ t, n.tokens[token]? = some t ∧ t.type = .end := by
  obtain ⟨stop, post, htokens, htype, -⟩ := h.tokens
  exact ⟨stop, getElem?_of_drop (j := 0) htokens, htype⟩

/-- Every item has a token of its own. -/
theorem length_lt (h : n.Rest token is offset) : token + is.length < n.tokens.length := by
  induction is generalizing token offset with
  | nil =>
      obtain ⟨t, ht, -⟩ := h.getElem?_nil
      exact (List.getElem?_eq_some_iff.mp ht).1
  | cons i is ih =>
      have hcount : 0 < i.count := by cases i <;> simp [Item.count]
      have := ih h.tail
      rw [List.length_cons]
      omega

/-! ## Walking over the items -/

/-- **`next_item` leads from item to item.** -/
theorem skip (h : n.Rest token is offset) {k : Nat} (hk : k ≤ is.length) :
    ∃ offset', n.skip k token = some (token + countAll (is.take k)) ∧
      n.Rest (token + countAll (is.take k)) (is.drop k) offset' := by
  induction k generalizing token is offset with
  | zero => exact ⟨offset, rfl, h⟩
  | succ k ih =>
      cases is with
      | nil => simp at hk
      | cons i is =>
          obtain ⟨t, ht, -, hnext⟩ := h.getElem?_cons
          obtain ⟨offset', hskip, hrest⟩ := ih h.tail (by simpa using hk)
          refine ⟨offset', ?_, ?_⟩
          · rw [BdecodeNode.skip, ht]
            dsimp only [Option.bind_eq_bind, Option.bind_some]
            rw [hnext, hskip, List.take_succ_cons, countAll, Nat.add_assoc]
          · rwa [List.take_succ_cons, countAll, List.drop_succ_cons, ← Nat.add_assoc]

theorem countFrom (h : n.Rest token is offset) {rounds ret : Nat} (hrounds : is.length < rounds) :
    n.countFrom rounds token ret = some (ret + is.length) := by
  induction rounds generalizing token is offset ret with
  | zero => omega
  | succ rounds ih =>
      cases is with
      | nil =>
          obtain ⟨t, ht, htype⟩ := h.getElem?_nil
          rw [BdecodeNode.countFrom, ht]
          dsimp only [Option.bind_eq_bind, Option.bind_some]
          rw [if_pos htype]
          rfl
      | cons i is =>
          obtain ⟨t, ht, htype, hnext⟩ := h.getElem?_cons
          rw [List.length_cons] at hrounds
          rw [BdecodeNode.countFrom, ht]
          dsimp only [Option.bind_eq_bind, Option.bind_some]
          rw [if_neg (by rw [htype]; exact itemType_ne_end i), hnext,
            ih h.tail (by omega), List.length_cons]
          congr 1
          omega

end Rest

/-! ## Values -/

namespace At

theorem rest {dict : Bool} (h : n.At (.sequence dict is) offset) :
    n.Rest (n.tokenIdx + 1) is (offset + 1) := by
  obtain ⟨next, post, htokens, hnext⟩ := h.tokens
  obtain ⟨rest, htext⟩ := h.text
  refine ⟨⟨⟨offset + 1 + (renderAll is).length, .end, 1, 0⟩, next :: post, ?_, rfl, rfl⟩,
    ⟨byte 'e' :: rest, ?_⟩, h.wellFormed.1⟩
  · rw [← List.drop_drop, htokens, itemTokens]
    simp
  · rw [← List.drop_drop, htext, Item.render]
    simp

theorem getElem? (h : n.At i offset) :
    ∃ t, n.tokens[n.tokenIdx]? = some t ∧ t.offset = offset ∧ t.type = itemType i ∧
      t.nextItem = i.count := by
  obtain ⟨next, post, htokens, -⟩ := h.tokens
  obtain ⟨t, ts, hcons, hoffset, htype, hnext⟩ := itemTokens_eq_cons offset i
  refine ⟨t, ?_, hoffset, htype, hnext⟩
  have := getElem?_of_drop (j := 0) htokens
  rw [hcons] at this
  exact this

/-- The token behind the item. -/
theorem getElem?_next (h : n.At i offset) :
    ∃ t, n.tokens[n.tokenIdx + i.count]? = some t ∧ t.offset = offset + i.render.length := by
  obtain ⟨next, post, htokens, hnext⟩ := h.tokens
  refine ⟨next, ?_, hnext⟩
  rw [getElem?_of_drop htokens, List.getElem?_append_right (by rw [length_itemTokens]),
    length_itemTokens, Nat.sub_self]
  rfl

theorem type (h : n.At i offset) : n.type = some (itemType i) := by
  obtain ⟨t, ht, -, htype, -⟩ := h.getElem?
  rw [BdecodeNode.type, ht, Option.map_some, htype]

theorem bytes_of_drop {start : Nat} {text rest : Bytes} (h : n.buffer.drop start = text ++ rest)
    (hstart : start ≤ n.buffer.length) : n.bytes start text.length = some text := by
  have hlength := congrArg List.length h
  rw [List.length_drop, List.length_append] at hlength
  rw [bytes, if_pos (by omega), h, List.take_left]

theorem offset_lt (h : n.At i offset) : offset < n.buffer.length := by
  obtain ⟨rest, htext⟩ := h.text
  have hlength := congrArg List.length htext
  have := length_render_pos i
  rw [List.length_drop, List.length_append] at hlength
  omega

theorem dataSection (h : n.At i offset) : n.dataSection = some i.render := by
  obtain ⟨t, ht, hoffset, -, hnext⟩ := h.getElem?
  obtain ⟨next, hn, hend⟩ := h.getElem?_next
  obtain ⟨rest, htext⟩ := h.text
  rw [BdecodeNode.dataSection, ht]
  dsimp only [Option.bind_eq_bind, Option.bind_some]
  rw [hnext, hn]
  dsimp only [Option.bind_some]
  rw [hoffset, hend, Nat.add_sub_cancel_left]
  exact bytes_of_drop htext h.offset_lt.le

/-- The content of a string lies between its header and the next token. -/
theorem string_bounds {length content : Bytes} (h : n.At (.string length content) offset) :
    ∃ t next, n.tokens[n.tokenIdx]? = some t ∧ n.tokens[n.tokenIdx + 1]? = some next ∧
      t.offset + t.startOffset + content.length = next.offset ∧
      n.bytes (t.offset + t.startOffset) content.length = some content ∧ t.nextItem = 1 := by
  obtain ⟨next, post, htokens, hnext⟩ := h.tokens
  obtain ⟨rest, htext⟩ := h.text
  have hpos : 0 < length.length := List.length_pos_iff.mpr h.wellFormed.1
  have hlength := congrArg List.length htext
  simp only [Item.render, List.length_drop, List.length_append, List.length_cons] at hlength
  have hstart : offset + (length.length - 1 + 2) = offset + (length.length + 1) := by omega
  refine ⟨⟨offset, .string, 1, length.length - 1⟩, next, getElem?_of_drop (j := 0) htokens,
    getElem?_of_drop (j := 1) htokens, ?_, ?_, rfl⟩
  · rw [hnext, BdecodeToken.startOffset, Item.render, List.length_append, List.length_cons]
    dsimp only
    omega
  · rw [BdecodeToken.startOffset]
    dsimp only
    rw [hstart]
    refine @bytes_of_drop n _ content rest ?_ (by omega)
    rw [← List.drop_drop, htext, Item.render, List.append_assoc, List.cons_append,
      ← List.drop_drop, List.drop_left' rfl]
    rfl

theorem stringValue {length content : Bytes} (h : n.At (.string length content) offset) :
    n.stringValue = some content := by
  obtain ⟨t, next, ht, hn, hbounds, hbytes, -⟩ := h.string_bounds
  rw [BdecodeNode.stringValue, ht]
  dsimp only [Option.bind_eq_bind, Option.bind_some]
  rw [hn]
  dsimp only [Option.bind_some]
  rw [if_pos (by omega), ← hbounds, Nat.add_sub_cancel_left, hbytes]

theorem parseInt_e {digits : Bytes} (hdigits : ∀ c ∈ digits, numeric c = true) (rest : Bytes) :
    ∃ length val ec, parseInt (byte 'e') (digits ++ byte 'e' :: rest) 0 = (length, val, ec) ∧
      length < (digits ++ byte 'e' :: rest).length ∧
      if maxInt64 < decimalValue digits then ec.isSome = true
      else val = decimalValue digits ∧ ec = none := by
  have hparse := parseInt_digits (show numeric (byte 'e') = false by decide) hdigits rest
    (Nat.zero_le maxInt64)
  by_cases hlarge : maxInt64 < decimalValue digits
  · rw [if_neg (show ¬ decimalFrom 0 digits ≤ maxInt64 from not_le.mpr hlarge)] at hparse
    obtain ⟨length, val, hparse⟩ := hparse
    refine ⟨length, val, some .overflow, hparse, parseInt_lt hparse, ?_⟩
    rw [if_pos hlarge]
    rfl
  · rw [if_pos (show decimalFrom 0 digits ≤ maxInt64 from not_lt.mp hlarge)] at hparse
    refine ⟨_, _, _, hparse, by simp, ?_⟩
    rw [if_neg hlarge]
    exact ⟨rfl, rfl⟩

theorem intValue {text : Bytes} (h : n.At (.integer text) offset) :
    n.intValue = some (integerValue text) := by
  obtain ⟨next, post, htokens, hnext⟩ := h.tokens
  obtain ⟨rest, htext⟩ := h.text
  obtain ⟨sign, digits, rfl, hsign, hne, hdigits, -⟩ := h.wellFormed
  obtain ⟨c, cs, rfl⟩ := List.exists_cons_of_ne_nil hne
  -- the buffer behind the `i`
  have hdrop : n.buffer.drop (offset + 1) = sign ++ (c :: cs) ++ byte 'e' :: rest := by
    rw [← List.drop_drop, htext, Item.render]
    simp
  have hfirst : n.buffer[offset + 1]? = (sign ++ c :: cs).head? := by
    rw [← List.head?_drop, hdrop]
    rcases hsign with rfl | rfl
    · rfl
    · rfl
  have hsize : next.offset - offset = sign.length + cs.length + 3 := by
    rw [hnext, Item.render]
    simp only [List.length_append, List.length_cons, List.length_nil]
    omega
  have ht : n.tokens[n.tokenIdx]? = some ⟨offset, .integer, 1, 0⟩ :=
    getElem?_of_drop (j := 0) htokens
  have hn : n.tokens[n.tokenIdx + 1]? = some next := getElem?_of_drop (j := 1) htokens
  have htake : (n.buffer.drop (offset + 1 + sign.length)).take
      (sign.length + cs.length + 3 - sign.length) = c :: cs ++ byte 'e' :: rest.take 1 := by
    rw [← List.drop_drop, hdrop, List.append_assoc, List.drop_left' rfl,
      show sign.length + cs.length + 3 - sign.length = (c :: cs).length + 2 by
        rw [List.length_cons]; omega]
    rw [List.take_length_add_append]
    rfl
  obtain ⟨length, val, ec, hparse, hlt, hvalue⟩ := parseInt_e hdigits (rest.take 1)
  have hc : c ≠ byte '-' := by
    rintro rfl
    exact absurd (hdigits _ List.mem_cons_self) (by decide)
  -- both signs: what the parser returns is what the digits say
  have hresult : ∀ first negative, n.buffer[offset + 1]? = some first →
      (first = byte '-' ↔ negative = true) → sign.length = (if negative then 1 else 0) →
      n.intValue = some (if maxInt64 < decimalValue (c :: cs) then 0
        else if negative then -(decimalValue (c :: cs) : Int) else decimalValue (c :: cs)) := by
    intro first negative hf hneg hlen
    rw [BdecodeNode.intValue, ht]
    dsimp only [Option.bind_eq_bind, Option.bind_some]
    rw [hn]
    dsimp only [Option.bind_some]
    rw [hf]
    dsimp only [Option.bind_some]
    have hs : (if first = byte '-' then 1 else 0) = sign.length := by
      rw [hlen]
      simp only [hneg]
    rw [hs, hsize, htake, hparse]
    dsimp only
    rw [if_neg (by rintro ⟨heq, -⟩; omega)]
    by_cases hlarge : maxInt64 < decimalValue (c :: cs)
    · rw [if_pos hlarge] at hvalue
      rw [if_pos hlarge, if_pos hvalue]
    · rw [if_neg hlarge] at hvalue
      obtain ⟨rfl, rfl⟩ := hvalue
      rw [if_neg hlarge]
      simp only [hneg, Option.isSome_none, Bool.false_eq_true, if_false]
  rcases hsign with rfl | rfl
  · rw [hresult c false hfirst (by simp [hc]) rfl, integerValue]
    simp [hc]
  · rw [hresult (byte '-') true hfirst (by simp) rfl, integerValue]
    simp

end At

end BdecodeNode

/-! ## Lookups by position -/

/-- What a node remembers is right: where the last item is that was looked up, in steps of
`step` items, and how many there are. -/
structure Lookups.Sound (c : Lookups) (n : BdecodeNode) (step : Nat) (is : List Item) : Prop where
  last : ∀ last, c.lastIndex = some last →
    step * last ≤ is.length ∧ c.lastToken = n.tokenIdx + 1 + countAll (is.take (step * last))
  size : ∀ size, c.size = some size → step * size = is.length

theorem Lookups.sound_init (n : BdecodeNode) (step : Nat) (is : List Item) :
    Lookups.Sound {} n step is where
  last := by simp
  size := by simp

namespace BdecodeNode

variable {n : BdecodeNode} {is : List Item} {offset : Nat} {c : Lookups}

/-- The token of an item of a container. -/
def child (n : BdecodeNode) (is : List Item) (k : Nat) : Nat :=
  n.tokenIdx + 1 + countAll (is.take k)

theorem skip_child {token j k : Nat} (h : n.Rest (n.tokenIdx + 1) is offset)
    (htoken : token = n.child is j) (hjk : j ≤ k) (hk : k ≤ is.length) :
    n.skip (k - j) token = some (n.child is k) := by
  obtain ⟨_, _, hrest⟩ := h.skip (show j ≤ is.length by omega)
  obtain ⟨_, hskip, _⟩ := hrest.skip (k := k - j) (by rw [List.length_drop]; omega)
  have htake : is.take k = is.take j ++ (is.drop j).take (k - j) := by
    rw [← List.take_add, Nat.add_sub_cancel' hjk]
  subst htoken
  unfold child
  rw [htake, countAll_append, ← Nat.add_assoc]
  exact hskip

/-- Where a lookup starts. -/
theorem lookupStart_eq {step i : Nat} (hc : c.Sound n step is) :
    ∃ token item, n.lookupStart c i = (token, item) ∧
      token = n.child is (step * item) ∧ item ≤ i := by
  have hfirst : n.tokenIdx + 1 = n.child is (step * 0) := by simp [child, countAll]
  unfold lookupStart
  cases hlast : c.lastIndex with
  | none => exact ⟨_, _, rfl, hfirst, Nat.zero_le _⟩
  | some last =>
      dsimp only
      by_cases hle : last ≤ i
      · rw [if_pos hle]
        exact ⟨_, _, rfl, (hc.last last hlast).2, hle⟩
      · rw [if_neg hle]
        exact ⟨_, _, rfl, hfirst, Nat.zero_le _⟩

theorem Rest.at_child {k : Nat} {i : Item} (h : n.Rest (n.tokenIdx + 1) is offset)
    (hi : is[k]? = some i) : ∃ offset', (n.goto (n.child is k)).At i offset' := by
  have hk : k < is.length := (List.getElem?_eq_some_iff.mp hi).1
  obtain ⟨_, _, hrest⟩ := h.skip hk.le
  rw [List.drop_eq_getElem_cons hk, (List.getElem?_eq_some_iff.mp hi).2] at hrest
  exact ⟨_, hrest.head⟩

/-- **`list_at` finds the item at an index**, whatever was looked up before. -/
theorem listAt_eq {k : Nat} {i : Item} (h : n.At (.sequence false is) offset)
    (hc : c.Sound n 1 is) (hi : is[k]? = some i) :
    ∃ c' offset', n.listAt c k = some (n.goto (n.child is k), c') ∧ c'.Sound n 1 is ∧
      (n.goto (n.child is k)).At i offset' := by
  have hk : k < is.length := (List.getElem?_eq_some_iff.mp hi).1
  obtain ⟨token, item, hstart, htoken, hle⟩ := lookupStart_eq (i := k) hc
  obtain ⟨offset', hat⟩ := h.rest.at_child hi
  rw [Nat.one_mul] at htoken
  have hskip := skip_child h.rest htoken hle hk.le
  refine ⟨{ c with lastIndex := some k, lastToken := n.child is k }, offset', ?_, ?_, hat⟩
  · rw [listAt, hstart]
    dsimp only [Option.bind_eq_bind]
    rw [hskip]
    rfl
  · refine ⟨fun last hlast => ?_, hc.size⟩
    obtain rfl := Option.some.inj hlast
    rw [Nat.one_mul]
    exact ⟨hk.le, rfl⟩

/-- The count from the last item that was looked up. -/
theorem count_items {step : Nat} (h : n.Rest (n.tokenIdx + 1) is offset) (hc : c.Sound n step is) :
    ∃ token ret, n.sizeStart c = (token, ret) ∧
      n.countFrom n.tokens.length token (step * ret) = some is.length := by
  have hlength := h.length_lt
  unfold sizeStart
  cases hlast : c.lastIndex with
  | none =>
      refine ⟨_, _, rfl, ?_⟩
      rw [h.countFrom (by omega), Nat.mul_zero, Nat.zero_add]
  | some last =>
      obtain ⟨hle, htoken⟩ := hc.last last hlast
      obtain ⟨_, _, hrest⟩ := h.skip hle
      refine ⟨_, _, rfl, ?_⟩
      rw [htoken, hrest.countFrom (by rw [List.length_drop]; omega), List.length_drop]
      congr 1
      omega

/-- **`list_size` counts the items.** -/
theorem listSize_eq (h : n.At (.sequence false is) offset) (hc : c.Sound n 1 is) :
    ∃ c', n.listSize c = some (is.length, c') ∧ c'.Sound n 1 is := by
  unfold listSize
  cases hsize : c.size with
  | some size =>
      have := hc.size size hsize
      rw [Nat.one_mul] at this
      exact ⟨c, by rw [this], hc⟩
  | none =>
      obtain ⟨token, ret, hstart, hcount⟩ := count_items h.rest hc
      rw [Nat.one_mul] at hcount
      refine ⟨{ c with size := some is.length }, ?_, hc.last, fun size hs => ?_⟩
      · rw [hstart]
        simp only [Option.bind_eq_bind, hcount, Option.bind_some]
      · obtain rfl := Option.some.inj hs
        rw [Nat.one_mul]

/-- **`dict_at` finds the key and the value at an index.** -/
theorem dictAt_eq {k : Nat} {key : Bytes} {v : Item} (h : n.At (.sequence true is) offset)
    (hc : c.Sound n 2 is) (hk : (keyed is)[k]? = some (key, v)) :
    ∃ c' offset', n.dictAt c k = some ((key, n.goto (n.child is (2 * k + 1))), c') ∧
      c'.Sound n 2 is ∧ (n.goto (n.child is (2 * k + 1))).At v offset' := by
  have hturns := h.wellFormed.2 rfl
  obtain ⟨length, hdrop⟩ := getElem?_keyed hturns hk
  have hkey : is[2 * k]? = some (.string length key) := by
    rw [← Nat.add_zero (2 * k), getElem?_of_drop hdrop]
    rfl
  have hvalue : is[2 * k + 1]? = some v := by
    rw [getElem?_of_drop hdrop]
    rfl
  have hlt : 2 * k + 1 < is.length := (List.getElem?_eq_some_iff.mp hvalue).1
  -- the walk starts at the key that was looked up last, if that is not behind this one
  obtain ⟨token, item, hstart, htoken, hle⟩ := lookupStart_eq (i := k) hc
  have hskip := skip_child h.rest htoken (show 2 * item ≤ 2 * k by omega) (by omega)
  rw [← Nat.mul_sub] at hskip
  obtain ⟨offset₁, hatKey⟩ := h.rest.at_child hkey
  obtain ⟨offset₂, hatValue⟩ := h.rest.at_child hvalue
  obtain ⟨t, next, ht, -, -, -, hnext⟩ := hatKey.string_bounds
  have ht : n.tokens[n.child is (2 * k)]? = some t := ht
  -- the token behind the key is the value's
  have hchild : n.child is (2 * k) + t.nextItem = n.child is (2 * k + 1) := by
    rw [hnext, child, child, List.take_add_one, hkey, Option.toList_some, countAll_append]
    rfl
  have hremember : ∀ c' : Lookups, c' = { c with lastIndex := some k, lastToken := n.child is (2 * k) } →
      c'.Sound n 2 is := by
    rintro c' rfl
    refine ⟨fun last hlast => ?_, hc.size⟩
    obtain rfl := Option.some.inj hlast
    exact ⟨by omega, rfl⟩
  refine ⟨if 0 < k then { c with lastIndex := some k, lastToken := n.child is (2 * k) } else c,
    offset₂, ?_, ?_, hatValue⟩
  · rw [dictAt, hstart]
    dsimp only [Option.bind_eq_bind]
    rw [hskip]
    dsimp only [Option.bind_some]
    rw [ht]
    dsimp only [Option.bind_some]
    rw [hatKey.stringValue, hchild]
    rfl
  · split
    · exact hremember _ rfl
    · exact hc

/-- **`dict_size` counts the keys.** -/
theorem dictSize_eq (h : n.At (.sequence true is) offset) (hc : c.Sound n 2 is) :
    ∃ c', n.dictSize c = some ((keyed is).length, c') ∧ c'.Sound n 2 is := by
  have hlength := length_keyed (h.wellFormed.2 rfl)
  unfold dictSize
  cases hsize : c.size with
  | some size =>
      have hs := hc.size size hsize
      obtain rfl : size = (keyed is).length := by omega
      exact ⟨c, rfl, hc⟩
  | none =>
      obtain ⟨token, ret, hstart, hcount⟩ := count_items h.rest hc
      rw [Nat.mul_comm] at hcount
      have hhalf : is.length / 2 = (keyed is).length := by omega
      refine ⟨{ c with size := some (keyed is).length }, ?_, hc.last, fun size hs => ?_⟩
      · rw [hstart]
        simp only [Option.bind_eq_bind, hcount, Option.bind_some, hhalf]
      · obtain rfl := Option.some.inj hs
        exact hlength

end BdecodeNode

/-! ## The root -/

theorem at_rootOf {i : Item} {rest : Bytes} (h : i.WellFormed) :
    ((Decoder.rootOf i).node (i.render ++ rest)).At i 0 where
  tokens := ⟨⟨i.render.length, .end, 0, 0⟩, [], rfl, by simp⟩
  text := ⟨rest, rfl⟩
  wellFormed := h

/-! ## Any lookups -/

/-- The calls with which the items of a container are looked up. -/
inductive Lookup
  | at (i : Nat)
  | size
deriving DecidableEq

/-- What they answer: the node of an item, with its key in a dictionary, or how many there are. -/
inductive LookupAnswer
  | item (key : Option Bytes) (node : BdecodeNode)
  | size (n : Nat)
deriving DecidableEq

namespace BdecodeNode

/-- A call of `list_at` or `list_size`, or of `dict_at` or `dict_size`. -/
def lookup (n : BdecodeNode) (dict : Bool) (c : Lookups) : Lookup → Option (LookupAnswer × Lookups)
  | .at i =>
      if dict then (n.dictAt c i).map fun r => (.item (some r.1.1) r.1.2, r.2)
      else (n.listAt c i).map fun r => (.item none r.1, r.2)
  | .size => (if dict then n.dictSize c else n.listSize c).map fun r => (.size r.1, r.2)

/-- Calls one after the other. Each one goes on from what the node remembers. -/
def lookups (n : BdecodeNode) (dict : Bool) : Lookups → List Lookup → Option (List LookupAnswer)
  | _, [] => some []
  | c, q :: qs => do
      let (answer, c) ← n.lookup dict c q
      let answers ← n.lookups dict c qs
      some (answer :: answers)

/-- What a call answers about the items `is`. -/
def answer (n : BdecodeNode) (dict : Bool) (is : List Item) : Lookup → LookupAnswer
  | .at i =>
      if dict then .item ((keyed is)[i]?.map Prod.fst) (n.goto (n.child is (2 * i + 1)))
      else .item none (n.goto (n.child is i))
  | .size => .size (if dict then (keyed is).length else is.length)

/-- The index, if there is one, is that of an item. -/
def Answers (dict : Bool) (is : List Item) : Lookup → Prop
  | .at i => i < if dict then (keyed is).length else is.length
  | .size => True

variable {n : BdecodeNode} {is : List Item} {offset : Nat} {dict : Bool}

/-- One call. -/
theorem lookup_eq (h : n.At (.sequence dict is) offset) {c : Lookups} {q : Lookup}
    (hc : c.Sound n (if dict then 2 else 1) is) (hq : Answers dict is q) :
    ∃ c', n.lookup dict c q = some (n.answer dict is q, c') ∧
      c'.Sound n (if dict then 2 else 1) is := by
  cases dict with
  | false =>
      cases q with
      | size =>
          obtain ⟨c', hsize, hc'⟩ := listSize_eq h hc
          exact ⟨c', by simp [lookup, hsize, answer], hc'⟩
      | «at» i =>
          have hi : i < is.length := hq
          obtain ⟨c', -, hat, hc', -⟩ := listAt_eq h hc (List.getElem?_eq_getElem hi)
          exact ⟨c', by simp [lookup, hat, answer], hc'⟩
  | true =>
      cases q with
      | size =>
          obtain ⟨c', hsize, hc'⟩ := dictSize_eq h hc
          exact ⟨c', by simp [lookup, hsize, answer], hc'⟩
      | «at» i =>
          have hi : i < (keyed is).length := hq
          have hk : (keyed is)[i]? = some ((keyed is)[i].1, (keyed is)[i].2) :=
            List.getElem?_eq_getElem hi
          obtain ⟨c', -, hat, hc', -⟩ := dictAt_eq h hc hk
          exact ⟨c', by simp [lookup, hat, answer, hk], hc'⟩

/-- **Lookups in any order** answer as if each were the first one. -/
theorem lookups_eq (h : n.At (.sequence dict is) offset) {qs : List Lookup}
    (hqs : ∀ q ∈ qs, Answers dict is q) :
    n.lookups dict {} qs = some (qs.map (n.answer dict is)) := by
  suffices hall : ∀ c : Lookups, c.Sound n (if dict then 2 else 1) is →
      n.lookups dict c qs = some (qs.map (n.answer dict is)) from
    hall {} (Lookups.sound_init n _ is)
  induction qs with
  | nil => exact fun _ _ => rfl
  | cons q qs ih =>
      intro c hc
      obtain ⟨c', hlookup, hc'⟩ := lookup_eq h hc (hqs q List.mem_cons_self)
      rw [lookups, hlookup]
      dsimp only [Option.bind_eq_bind, Option.bind_some]
      rw [ih (fun q hq => hqs q (List.mem_cons_of_mem _ hq)) c' hc']
      rfl

end BdecodeNode

/-- The items of the dictionary `d1:ai1e1:bi2ee`. -/
def sampleItems : List Item :=
  [.string (ascii "1") (ascii "a"), .integer (ascii "1"), .string (ascii "1") (ascii "b"),
    .integer (ascii "2")]

/-- The last key, the size, and the first key. -/
theorem lookups_eq_sample :
    ((Decoder.rootOf (.sequence true sampleItems)).node
      ((Item.sequence true sampleItems).render ++ [])).lookups true {} [.at 1, .size, .at 0]
      = some ([Lookup.at 1, .size, .at 0].map (((Decoder.rootOf (.sequence true sampleItems)).node
        ((Item.sequence true sampleItems).render ++ [])).answer true sampleItems)) := by
  refine BdecodeNode.lookups_eq (at_rootOf ?_) ?_
  · have hlength : ∀ c, IsLengthText (ascii "1") [c] := fun c =>
      ⟨by decide +kernel, by decide +kernel, by decide +kernel, rfl⟩
    have hinteger : ∀ c, numeric c = true → IsIntegerText [c] := fun c hc =>
      ⟨[], [c], rfl, Or.inl rfl, by simp, by simpa using hc, by simp⟩
    exact ⟨⟨hlength _, hinteger _ (by decide), hlength _, hinteger _ (by decide), trivial⟩,
      fun _ => by simp [Turns, sampleItems, Item.isString]⟩
  · simp [BdecodeNode.Answers, sampleItems, keyed]

end BtDownloader
