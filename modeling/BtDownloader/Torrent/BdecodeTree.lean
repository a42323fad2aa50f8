import BtDownloader.Torrent.BdecodeNumbers

set_option autoImplicit false

/-! # What `bdecode` accepts

`itemTokens` are the tokens of an item whose text starts at a given offset.

* `loop_item`: where the text of a well-formed item comes next, within the limits, `bdecode` reads
  it and adds its tokens.
-/

namespace BtDownloader

open Bencoding

def containerType (dict : Bool) : TokenType := if dict then .dict else .list

mutual

/-- The tokens of an item whose text starts at `offset`. -/
def itemTokens (offset : Nat) : Item → List BdecodeToken
  | .integer _ => [⟨offset, .integer, 1, 0⟩]
  | .string length _ => [⟨offset, .string, 1, length.length - 1⟩]
  | .sequence dict items =>
      ⟨offset, containerType dict, countAll items + 2, 0⟩ :: allTokens (offset + 1) items ++
        [⟨offset + 1 + (renderAll items).length, .end, 1, 0⟩]
termination_by structural i => i

def allTokens (offset : Nat) : List Item → List BdecodeToken
  | [] => []
  | i :: is => itemTokens offset i ++ allTokens (offset + i.render.length) is
termination_by structural is => is

end

theorem allTokens_append (offset : Nat) (is js : List Item) :
    allTokens offset (is ++ js)
      = allTokens offset is ++ allTokens (offset + (renderAll is).length) js := by
  induction is generalizing offset with
  | nil => simp [allTokens, renderAll]
  | cons i is ih => simp [allTokens, renderAll, ih, Nat.add_assoc]

mutual

/-- `count` counts the tokens. -/
theorem length_itemTokens (offset : Nat) (i : Item) : (itemTokens offset i).length = i.count := by
  cases i with
  | integer text => rfl
  | string length content => rfl
  | sequence dict items => simp [itemTokens, length_allTokens (offset + 1) items, Item.count]

theorem length_allTokens (offset : Nat) (is : List Item) :
    (allTokens offset is).length = countAll is := by
  cases is with
  | nil => rfl
  | cons i is =>
      simp [allTokens, length_itemTokens offset i, length_allTokens (offset + i.render.length) is,
        countAll]

end

theorem modify_length_append {α : Type} (l m : List α) (a : α) (f : α → α) :
    (l ++ a :: m).modify l.length f = l ++ f a :: m := by
  induction l with
  | nil => rfl
  | cons x l ih => simp [ih]

namespace Decoder

variable {buffer : Bytes} {depthLimit : Nat} {st st' : Decoder}

/-- The decoder once it has read an item. -/
def after (st : Decoder) (i : Item) : Decoder where
  tokens := st.tokens ++ itemTokens st.start i
  stack := st.turned
  start := st.start + i.render.length
  tokenLimit := st.tokenLimit - i.count

/-- The frames of the stack are those of tokens that are there. -/
def Stacked (st : Decoder) : Prop := ∀ frame ∈ st.stack, frame.token < st.tokens.length

/-- The item can be read next: its text is there, within the limits, and it is a string where
a key is due. -/
structure Ready (buffer : Bytes) (depthLimit : Nat) (st : Decoder) (i : Item) : Prop where
  text : ∃ rest, buffer.drop st.start = i.render ++ rest
  wellFormed : i.WellFormed
  depth : i.nesting + st.stack.length < depthLimit
  limit : i.count ≤ st.tokenLimit
  key : st.expectsKey = true → i.isString = true

/-! ## The first byte of an item -/

theorem getElem?_start {c : UInt8} {text : Bytes} (h : buffer.drop st.start = c :: text) :
    buffer[st.start]? = some c ∧ buffer.drop (st.start + 1) = text := by
  constructor
  · rw [← List.head?_drop, h, List.head?_cons]
  · rw [← List.drop_drop, h, List.drop_succ_cons, List.drop_zero]

theorem lt_length_of_drop {c : UInt8} {text : Bytes} {n : Nat} (h : buffer.drop n = c :: text) :
    n < buffer.length := by
  have := congrArg List.length h
  rw [List.length_drop, List.length_cons] at this
  omega

theorem not_missesKey {c : UInt8}
    (hkey : st.expectsKey = true → numeric c = true ∨ c = byte 'e') : st.missesKey c = false := by
  unfold missesKey
  by_cases h : st.expectsKey = true
  · rcases hkey h with hnum | rfl
    · simp [hnum]
    · simp
  · simp [h]

/-- The state once a round has counted its token. -/
def counted (st : Decoder) : Decoder := { st with tokenLimit := st.tokenLimit - 1 }

/-- A round that does not fail at once. -/
theorem next_eq_switch {c : UInt8} (hc : buffer[st.start]? = some c)
    (hdepth : st.stack.length < depthLimit) (hlimit : 0 < st.tokenLimit)
    (hkey : st.expectsKey = true → numeric c = true ∨ c = byte 'e') :
    st.next buffer depthLimit = st.counted.switch buffer c := by
  have hmiss : ({ st with tokenLimit := st.tokenLimit - 1 } : Decoder).missesKey c = false :=
    not_missesKey hkey
  unfold next
  rw [hc]
  dsimp only
  rw [if_neg (by omega), if_neg (by omega), hmiss, if_neg (by simp)]
  rfl

theorem switch_string {c : UInt8} (hc : numeric c = true) :
    st.switch buffer c = st.readString buffer c := by
  have hne : ∀ d : UInt8, numeric d = false → c ≠ d := by
    rintro d hd rfl
    rw [hc] at hd
    cases hd
  unfold switch
  rw [if_neg (hne _ (by decide)), if_neg (hne _ (by decide)), if_neg (hne _ (by decide)),
    if_neg (hne _ (by decide))]

/-! ## Reading an item -/

theorem readInteger_ok {text rest : Bytes} (htext : IsIntegerText text)
    (hdrop : buffer.drop st.start = (Item.integer text).render ++ rest) :
    st.counted.readInteger buffer = .ok (st.after (.integer text)) := by
  have hdrop' : buffer.drop (st.start + 1) = text ++ byte 'e' :: rest := by
    have hcons : buffer.drop st.start = byte 'i' :: (text ++ byte 'e' :: rest) := by
      rw [hdrop, Item.render]
      simp
    exact (getElem?_start hcons).2
  have hcheck : checkInteger (buffer.drop (st.start + 1)) = (text.length, none) :=
    checkInteger_eq_none.mpr ⟨text, rest, hdrop', htext, rfl⟩
  unfold readInteger
  rw [show st.counted.start = st.start from rfl, hcheck]
  simp only [after, itemTokens, Item.render, Item.count, push, counted, turned, isDict,
    List.length_cons, List.length_append, List.length_nil, Except.ok.injEq, Decoder.mk.injEq,
    true_and, and_true]
  rfl

theorem readString_ok {length content rest : Bytes} (hlength : IsLengthText length content)
    (hdrop : buffer.drop st.start = (Item.string length content).render ++ rest) :
    ∃ c, buffer[st.start]? = some c ∧ numeric c = true ∧
      st.counted.readString buffer c = .ok (st.after (.string length content)) := by
  obtain ⟨hne, hdigits, hlen, hvalue⟩ := hlength
  obtain ⟨c, digits, rfl⟩ := List.exists_cons_of_ne_nil hne
  have hc : numeric c = true := hdigits c List.mem_cons_self
  have hdigits' : ∀ d ∈ digits, numeric d = true := fun d hd => hdigits d (List.mem_cons_of_mem _ hd)
  have hcons : buffer.drop st.start = c :: (digits ++ byte ':' :: (content ++ rest)) := by
    rw [hdrop, Item.render]
    simp
  obtain ⟨hget, hdrop'⟩ := getElem?_start hcons
  have hbuffer : buffer.length
      = st.start + 1 + digits.length + 1 + content.length + rest.length := by
    have := congrArg List.length hcons
    have := lt_length_of_drop hcons
    simp only [List.length_drop, List.length_cons, List.length_append] at *
    omega
  have hfrom : decimalFrom (c.toNat - 48) digits = content.length := by
    rw [← hvalue, decimalValue_cons]
  -- a length of eight digits at most does not overflow
  have hsmall : decimalFrom (c.toNat - 48) digits ≤ maxInt64 := by
    have hd := numeric_iff.mp hc
    have hlt := decimalFrom_lt hdigits' (show c.toNat - 48 < 10 ^ 1 by omega)
    have hpow : 10 ^ (1 + digits.length) ≤ 10 ^ 8 :=
      Nat.pow_le_pow_right (by omega) (by simpa [Nat.add_comm] using hlen)
    exact Nat.le_of_lt (Nat.lt_of_lt_of_le hlt (Nat.le_trans hpow (by decide)))
  have hparse := parseInt_digits (show numeric (byte ':') = false by decide) hdigits'
    (content ++ rest) (Nat.le_trans (le_decimalFrom (c.toNat - 48) digits) hsmall)
  rw [if_pos hsmall, hfrom] at hparse
  refine ⟨c, hget, hc, ?_⟩
  have hheader : digits.length ≤ 7 := Nat.le_of_succ_le_succ hlen
  unfold readString
  simp only [counted, hc, Bool.true_eq_false, if_false, hdrop', hparse]
  rw [if_neg (by omega), if_neg (by omega), if_neg (by omega),
    if_neg (by unfold maxHeader; omega)]
  simp only [after, itemTokens, Item.render, Item.count, push, turned, isDict, List.length_cons,
    List.length_append, Except.ok.injEq, Decoder.mk.injEq, List.append_cancel_left_eq,
    List.cons.injEq, BdecodeToken.mk.injEq, true_and, and_true]
  exact ⟨by omega, rfl, by omega⟩

theorem isDict_append (frame : StackFrame) {tokens : List BdecodeToken}
    (hframe : frame.token < st.tokens.length) :
    ({ st with tokens := st.tokens ++ tokens } : Decoder).isDict frame = st.isDict frame := by
  unfold isDict
  rw [List.getElem?_append_left hframe]

/-- A container whose items have been read is closed; `st₀` is the state before it was opened. -/
theorem closeContainer_ok {st₀ : Decoder} {dict value : Bool} {items : List Item}
    (hstack : st.stack = ⟨st₀.tokens.length, value⟩ :: st₀.turned)
    (htokens : st.tokens = st₀.tokens ++
      ⟨st₀.start, containerType dict, 0, 0⟩ :: allTokens (st₀.start + 1) items)
    (hstart : st.start = st₀.start + 1 + (renderAll items).length)
    (hlimit : st.tokenLimit = st₀.tokenLimit - (countAll items + 2))
    (hvalue : dict = true → value = false) (hmax : countAll items + 2 ≤ maxNextItem) :
    st.closeContainer = .ok (st₀.after (.sequence dict items)) := by
  have hget : st.tokens[st₀.tokens.length]? = some ⟨st₀.start, containerType dict, 0, 0⟩ := by
    rw [htokens, List.getElem?_append_right (Nat.le_refl _), Nat.sub_self]
    rfl
  have hdict : (st.isDict ⟨st₀.tokens.length, value⟩ && value) = false := by
    unfold isDict
    rw [hget]
    cases dict with
    | false => simp [containerType]
    | true => simp [hvalue rfl]
  -- the token of the container is told how many tokens it takes
  have hlength : (st.tokens ++ [(⟨st.start, .end, 1, 0⟩ : BdecodeToken)]).length
      - st₀.tokens.length = countAll items + 2 := by
    rw [htokens]
    simp only [List.length_append, List.length_cons, length_allTokens, List.length_nil]
    omega
  unfold closeContainer
  rw [hstack]
  dsimp only
  rw [hdict, if_neg (by simp), hlength, if_neg (by omega)]
  simp only [after, itemTokens, Item.render, Item.count, Except.ok.injEq, Decoder.mk.injEq,
    List.length_append, List.length_cons, List.length_nil]
  refine ⟨?_, trivial, by omega, hlimit⟩
  rw [htokens, List.append_assoc, List.cons_append, modify_length_append, hstart]
  rfl

/-! ## A text that begins with an item is accepted -/

/-- The loop after a round: it is left when no container is open. -/
def goOn (buffer : Bytes) (depthLimit k : Nat) (st : Decoder) : Except BdecodeFailure Decoder :=
  if st.stack = [] then .ok st else st.loop buffer depthLimit k

theorem loop_of_next {k : Nat} (h : st.next buffer depthLimit = .ok st') :
    st.loop buffer depthLimit (k + 1) = goOn buffer depthLimit k st' := by
  rw [loop, h]
  rfl

/-- The decoder once it has read items of its top container. -/
def afterAll (st : Decoder) (is : List Item) : Decoder where
  tokens := st.tokens ++ allTokens st.start is
  stack := match st.stack with
    | [] => []
    | frame :: frames => { frame with value := false } :: frames
  start := st.start + (renderAll is).length
  tokenLimit := st.tokenLimit - countAll is

/-- The items can be read next, and they end the top container, whose frame is `frame`. -/
structure ReadyAll (buffer : Bytes) (depthLimit : Nat) (st : Decoder) (dict : Bool)
    (frame : StackFrame) (is : List Item) : Prop where
  text : ∃ rest, buffer.drop st.start = renderAll is ++ byte 'e' :: rest
  wellFormed : AllWellFormed is
  depth : nestingAll is + st.stack.length < depthLimit
  limit : countAll is < st.tokenLimit
  top : st.stack.head? = some frame
  isDict : st.isDict frame = dict
  stacked : st.Stacked
  turns : if dict then Turns frame.value is false else frame.value = false

theorem stacked_turned (hstacked : st.Stacked) :
    ∀ frame ∈ st.turned, frame.token < st.tokens.length := by
  intro frame hframe
  unfold turned at hframe
  cases hstack : st.stack with
  | nil => simp [hstack] at hframe
  | cons top frames =>
      rw [hstack] at hframe
      have htop := hstacked top (by simp [hstack])
      rcases List.mem_cons.mp hframe with rfl | hmem
      · split
        · exact htop
        · exact htop
      · exact hstacked frame (by simp [hstack, hmem])

theorem length_turned (st : Decoder) : st.turned.length = st.stack.length := by
  unfold turned
  cases st.stack with
  | nil => rfl
  | cons frame frames => rfl

theorem stacked_after (hstacked : st.Stacked) (i : Item) : (st.after i).Stacked := by
  intro frame hframe
  have := stacked_turned hstacked frame hframe
  simp only [after, List.length_append]
  omega

/-- After its first item the container is ready for the others. -/
theorem ReadyAll.tail {dict : Bool} {frame : StackFrame} {i : Item} {is : List Item}
    (h : ReadyAll buffer depthLimit st dict frame (i :: is)) :
    ReadyAll buffer depthLimit (st.after i) dict
      (if dict then { frame with value := !frame.value } else frame) is := by
  obtain ⟨frames, hstack⟩ := List.head?_eq_some_iff.mp h.top
  obtain ⟨rest, htext⟩ := h.text
  have hdepth := h.depth
  have hlimit := h.limit
  simp only [nestingAll, countAll] at hdepth hlimit
  refine
    { text := ⟨rest, ?_⟩
      wellFormed := h.wellFormed.2
      depth := ?_
      limit := ?_
      top := ?_
      isDict := ?_
      stacked := stacked_after h.stacked i
      turns := ?_ }
  · show buffer.drop (st.start + i.render.length) = _
    rw [← List.drop_drop, htext, renderAll, List.append_assoc, List.drop_left]
  · show nestingAll is + st.turned.length < depthLimit
    rw [length_turned]
    omega
  · show countAll is < st.tokenLimit - i.count
    omega
  · show st.turned.head? = _
    unfold turned
    rw [hstack]
    simp only [List.head?_cons, h.isDict]
  · have hsame : (st.after i).isDict (if dict then { frame with value := !frame.value } else frame)
        = (st.after i).isDict frame := by
      split <;> rfl
    rw [hsame, ← h.isDict]
    exact isDict_append frame (h.stacked frame (by simp [hstack]))
  -- in a dictionary the next item is of the other kind
  · have hturns := h.turns
    cases dict with
    | false => simpa using hturns
    | true =>
        simp only [if_true] at hturns ⊢
        exact hturns.2

/-- The first of the items of a container. -/
theorem ReadyAll.head {dict : Bool} {frame : StackFrame} {i : Item} {is : List Item}
    (h : ReadyAll buffer depthLimit st dict frame (i :: is)) : Ready buffer depthLimit st i := by
  obtain ⟨rest, htext⟩ := h.text
  obtain ⟨frames, hstack⟩ := List.head?_eq_some_iff.mp h.top
  have hdepth := h.depth
  have hlimit := h.limit
  simp only [nestingAll, countAll] at hdepth hlimit
  refine ⟨⟨renderAll is ++ byte 'e' :: rest, ?_⟩, h.wellFormed.1, by omega, by omega, fun hkey => ?_⟩
  · rw [htext, renderAll, List.append_assoc]
  · unfold expectsKey at hkey
    have hturns := h.turns
    simp only [hstack, List.head?_cons, Option.any_some, h.isDict, Bool.and_eq_true,
      Bool.not_eq_true'] at hkey
    rw [hkey.1] at hturns
    exact hturns.1 hkey.2

/-- Reading the items one after the other is reading them all. -/
theorem afterAll_after {dict : Bool} {frame : StackFrame} {i : Item} {is : List Item}
    (h : ReadyAll buffer depthLimit st dict frame (i :: is)) :
    (st.after i).afterAll is = st.afterAll (i :: is) := by
  obtain ⟨frames, hstack⟩ := List.head?_eq_some_iff.mp h.top
  simp only [after, afterAll, turned, hstack, allTokens, renderAll, countAll, List.append_assoc,
    List.length_append, Decoder.mk.injEq, List.cons.injEq, and_true, true_and]
  refine ⟨?_, by omega, by omega⟩
  split <;> rfl

theorem openContainer_ok (dict : Bool) :
    st.counted.openContainer (containerType dict) = .ok
      { tokens := st.tokens ++ [⟨st.start, containerType dict, 0, 0⟩]
        stack := ⟨st.tokens.length, false⟩ :: st.turned
        start := st.start + 1
        tokenLimit := st.tokenLimit - 1 } := rfl

theorem switch_opening (dict : Bool) :
    st.switch buffer (opening dict) = st.openContainer (containerType dict) := by
  cases dict with
  | false => rfl
  | true => rfl

theorem switch_end : st.switch buffer (byte 'e') = st.closeContainer := rfl

/-- Inside a container that was just opened. -/
theorem readyAll_opened {dict : Bool} {items : List Item} (hstacked : st.Stacked)
    (h : Ready buffer depthLimit st (.sequence dict items)) :
    ReadyAll buffer depthLimit
      { tokens := st.tokens ++ [⟨st.start, containerType dict, 0, 0⟩]
        stack := ⟨st.tokens.length, false⟩ :: st.turned
        start := st.start + 1
        tokenLimit := st.tokenLimit - 1 } dict ⟨st.tokens.length, false⟩ items := by
  obtain ⟨rest, htext⟩ := h.text
  have hdepth := h.depth
  have hlimit := h.limit
  simp only [Item.nesting, Item.count] at hdepth hlimit
  refine
    { text := ⟨rest, ?_⟩
      wellFormed := h.wellFormed.1
      depth := ?_
      limit := by dsimp only; omega
      top := rfl
      isDict := ?_
      stacked := ?_
      turns := ?_ }
  · refine (getElem?_start (c := opening dict) ?_).2
    rw [htext, Item.render]
    simp
  · simp only [List.length_cons, length_turned]
    omega
  · unfold isDict
    simp only [List.getElem?_append_right (Nat.le_refl _), Nat.sub_self, List.getElem?_cons_zero,
      Option.any_some]
    cases dict with
    | false => rfl
    | true => rfl
  · intro frame hframe
    simp only [List.length_append, List.length_singleton]
    rcases List.mem_cons.mp hframe with rfl | hmem
    · exact Nat.lt_succ_self _
    · exact Nat.lt_succ_of_lt (stacked_turned hstacked frame hmem)
  · cases dict with
    | false => rfl
    | true => exact h.wellFormed.2 rfl

mutual

/-- **An item that is there is read**: as many rounds as it has tokens bring the loop to the
state behind it. -/
theorem loop_item (hbuffer : buffer.length ≤ maxOffset) (i : Item) (k : Nat) {st : Decoder}
    (hstacked : st.Stacked) (h : Ready buffer depthLimit st i) :
    st.loop buffer depthLimit (k + i.count) = goOn buffer depthLimit k (st.after i) := by
  obtain ⟨rest, htext⟩ := h.text
  have hdepth := h.depth
  have hlimit := h.limit
  cases i with
  | integer text =>
      have hcons : buffer.drop st.start = byte 'i' :: (text ++ byte 'e' :: rest) := by
        rw [htext, Item.render]
        simp
      refine loop_of_next ?_
      rw [next_eq_switch (getElem?_start hcons).1 (by omega) hlimit fun hkey => absurd (h.key hkey) (by simp [Item.isString])]
      exact readInteger_ok h.wellFormed htext
  | string length content =>
      obtain ⟨c, hget, hc, hread⟩ := readString_ok h.wellFormed htext
      refine loop_of_next ?_
      rw [next_eq_switch hget (by omega) hlimit fun _ => Or.inl hc, switch_string hc, hread]
  | sequence dict items =>
      simp only [Item.nesting, Item.count] at hdepth hlimit
      have hopened := readyAll_opened hstacked h
      have hcons : buffer.drop st.start = opening dict :: (renderAll items ++ byte 'e' :: rest) := by
        rw [htext, Item.render]
        simp
      have hnext : st.next buffer depthLimit = st.counted.switch buffer (opening dict) :=
        next_eq_switch (getElem?_start hcons).1 (by omega) (by omega)
          fun hkey => absurd (h.key hkey) (by simp [Item.isString])
      rw [switch_opening, openContainer_ok] at hnext
      rw [Item.count, show k + (countAll items + 2) = k + 1 + countAll items + 1 by omega,
        loop_of_next hnext, goOn, if_neg (by simp), loop_items hbuffer items (k + 1) hopened]
      -- all that is left of the container is its end
      obtain ⟨rest', hrest⟩ := hopened.text
      have hend : buffer.drop (st.start + 1 + (renderAll items).length) = byte 'e' :: rest' := by
        rw [← List.drop_drop, hrest, List.drop_left]
      have hcount : countAll items + 2 ≤ maxNextItem := by
        have hle := count_le_length_render (.sequence dict items)
        have hlen := congrArg List.length htext
        simp only [List.length_drop, List.length_append, Item.count] at hle hlen
        unfold maxOffset at hbuffer
        unfold maxNextItem
        omega
      refine loop_of_next ?_
      rw [next_eq_switch (getElem?_start hend).1 ?_ ?_ fun _ => Or.inr rfl, switch_end]
      · refine closeContainer_ok rfl ?_ rfl ?_ (fun _ => rfl) hcount
        · simp [counted, afterAll]
        · simp only [counted, afterAll]
          omega
      · simp only [afterAll, List.length_cons, length_turned]
        omega
      · simp only [afterAll]
        omega

/-- The items of a container, up to its end. -/
theorem loop_items (hbuffer : buffer.length ≤ maxOffset) (is : List Item) (k : Nat)
    {st : Decoder} {dict : Bool} {frame : StackFrame}
    (h : ReadyAll buffer depthLimit st dict frame is) :
    st.loop buffer depthLimit (k + countAll is) = (st.afterAll is).loop buffer depthLimit k := by
  obtain ⟨frames, hstack⟩ := List.head?_eq_some_iff.mp h.top
  cases is with
  | nil =>
      have hvalue : frame.value = false := by
        have hturns := h.turns
        cases dict with
        | false => simpa using hturns
        | true => simpa [Turns] using hturns
      have hsame : st.afterAll [] = st := by
        obtain ⟨tokens, stack, start, tokenLimit⟩ := st
        obtain rfl : stack = frame :: frames := hstack
        obtain ⟨token, value⟩ := frame
        obtain rfl : value = false := hvalue
        simp [afterAll, allTokens, renderAll, countAll]
      rw [hsame]
      rfl
  | cons i is =>
      have hne : (st.after i).stack ≠ [] := by
        show st.turned ≠ []
        rw [← List.length_pos_iff, length_turned, hstack]
        simp
      rw [countAll, show k + (i.count + countAll is) = k + countAll is + i.count by omega,
        loop_item hbuffer i (k + countAll is) h.stacked h.head, goOn, if_neg hne,
        loop_items hbuffer is k h.tail, afterAll_after h]

end

end Decoder

end BtDownloader
