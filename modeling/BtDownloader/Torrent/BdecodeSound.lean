import BtDownloader.Torrent.BdecodeTree

set_option autoImplicit false

/-! # Containers that are still open

While `bdecode` runs, its tokens are those of the containers on its stack, with the items they
have so far (`Reads`). A round opens a container, or completes an item of the top one.

`bdecode_iff`: `bdecode` succeeds exactly on the texts that begin with a well-formed item
within the limits, and its tokens are those of that item.
-/

namespace BtDownloader

open Bencoding

/-- A list or dictionary whose end has not been read, with the items it has. -/
structure OpenContainer where
  dict : Bool
  items : List Item

/-- The text of the open containers, the innermost first. -/
def openText : List OpenContainer → Bytes
  | [] => []
  | o :: os => openText os ++ opening o.dict :: renderAll o.items

def openTokens : List OpenContainer → List BdecodeToken
  | [] => []
  | o :: os => openTokens os ++
      ⟨(openText os).length, containerType o.dict, 0, 0⟩ ::
        allTokens ((openText os).length + 1) o.items

/-- The frames of the containers around an open one: it is a value of each. -/
def outerFrames : List OpenContainer → List StackFrame
  | [] => []
  | _ :: os => ⟨(openTokens os).length, false⟩ :: outerFrames os

def openFrames (value : Bool) : List OpenContainer → List StackFrame
  | [] => []
  | _ :: os => ⟨(openTokens os).length, value⟩ :: outerFrames os

/-- The items of the open containers are within the depth limit. -/
def Fits (depthLimit : Nat) : List OpenContainer → Prop
  | [] => True
  | o :: os => (∀ i ∈ o.items, i.nesting + (os.length + 1) < depthLimit) ∧ Fits depthLimit os

theorem length_outerFrames (os : List OpenContainer) : (outerFrames os).length = os.length := by
  induction os with
  | nil => rfl
  | cons o os ih => simp [outerFrames, ih]

theorem length_openFrames (value : Bool) (os : List OpenContainer) :
    (openFrames value os).length = os.length := by
  cases os with
  | nil => rfl
  | cons o os => simp [openFrames, length_outerFrames]

theorem outerFrames_lt {os : List OpenContainer} {frame : StackFrame}
    (h : frame ∈ outerFrames os) : frame.token < (openTokens os).length := by
  induction os with
  | nil => simp [outerFrames] at h
  | cons o os ih =>
      simp only [openTokens, List.length_append, List.length_cons]
      rcases List.mem_cons.mp h with rfl | hmem
      · dsimp only
        omega
      · have := ih hmem
        omega

/-- The open containers after another item of the innermost. -/
def addItem (i : Item) : List OpenContainer → List OpenContainer
  | [] => []
  | o :: os => { o with items := o.items ++ [i] } :: os

/-- Whether a value comes next, after another item of the innermost container. -/
def turnedValue (value : Bool) : List OpenContainer → Bool
  | [] => value
  | o :: _ => if o.dict then !value else value

namespace Decoder

variable {buffer : Bytes} {depthLimit limit : Nat} {st st' : Decoder} {value : Bool}
  {os : List OpenContainer}

/-- The decoder has read the open containers `os` of the buffer, and `value` says whether a
value comes next in the innermost. -/
structure Reads (buffer : Bytes) (depthLimit limit : Nat) (st : Decoder) (value : Bool)
    (os : List OpenContainer) : Prop where
  start_le : st.start ≤ buffer.length
  text : buffer.take st.start = openText os
  tokens : st.tokens = openTokens os
  stack : st.stack = openFrames value os
  counted : st.tokenLimit + st.tokens.length = limit
  turns : ∀ o ∈ os.head?, if o.dict then Turns false o.items value else value = false
  outer : ∀ o ∈ os.tail, o.dict = true → Turns false o.items true
  wellFormed : ∀ o ∈ os, AllWellFormed o.items
  fits : Fits depthLimit os

theorem reads_init (buffer : Bytes) (depthLimit limit : Nat) :
    Reads buffer depthLimit limit { tokenLimit := limit } false [] where
  start_le := Nat.zero_le _
  text := rfl
  tokens := rfl
  stack := rfl
  counted := rfl
  turns := by simp
  outer := by simp
  wellFormed := by simp
  fits := trivial

namespace Reads

theorem length_text (h : Reads buffer depthLimit limit st value os) :
    (openText os).length = st.start := by
  rw [← h.text, List.length_take, Nat.min_eq_left h.start_le]

theorem length_stack (h : Reads buffer depthLimit limit st value os) :
    st.stack.length = os.length := by
  rw [h.stack, length_openFrames]

theorem stacked (h : Reads buffer depthLimit limit st value os) : st.Stacked := by
  intro frame hframe
  rw [h.stack] at hframe
  rw [h.tokens]
  cases os with
  | nil => simp [openFrames] at hframe
  | cons o os =>
      simp only [openTokens, List.length_append, List.length_cons]
      rcases List.mem_cons.mp hframe with rfl | hmem
      · dsimp only
        omega
      · have := outerFrames_lt hmem
        omega

/-- The top frame is that of the innermost container. -/
theorem isDict {o : OpenContainer} (h : Reads buffer depthLimit limit st value (o :: os))
    (v : Bool) : st.isDict ⟨(openTokens os).length, v⟩ = o.dict := by
  unfold Decoder.isDict
  rw [h.tokens, openTokens, List.getElem?_append_right (Nat.le_refl _), Nat.sub_self]
  cases hdict : o.dict with
  | false => simp [containerType]
  | true => simp [containerType]

theorem turned (h : Reads buffer depthLimit limit st value os) :
    st.turned = openFrames (turnedValue value os) os := by
  unfold Decoder.turned
  rw [h.stack]
  cases os with
  | nil => rfl
  | cons o os =>
      simp only [openFrames, h.isDict, turnedValue]
      split <;> rfl

theorem expectsKey {o : OpenContainer} (h : Reads buffer depthLimit limit st value (o :: os)) :
    st.expectsKey = (o.dict && !value) := by
  unfold Decoder.expectsKey
  rw [h.stack]
  simp [openFrames, h.isDict]

/-- There are not more tokens than bytes. -/
theorem length_tokens_le (h : Reads buffer depthLimit limit st value os) :
    st.tokens.length ≤ st.start := by
  rw [h.tokens, ← h.length_text]
  clear h
  induction os with
  | nil => exact Nat.le_refl _
  | cons o os ih =>
      have hitems : countAll o.items ≤ (renderAll o.items).length := by
        induction o.items with
        | nil => exact Nat.le_refl _
        | cons i is ihis =>
            have := count_le_length_render i
            simp only [countAll, renderAll, List.length_append]
            omega
      simp only [openTokens, openText, List.length_append, List.length_cons, length_allTokens]
      omega

/-- **An item is added to the innermost container.** -/
theorem add {o : OpenContainer} {i : Item}
    (h : Reads buffer depthLimit limit st value (o :: os)) (hi : Ready buffer depthLimit st i) :
    Reads buffer depthLimit limit (st.after i) (turnedValue value (o :: os))
      (addItem i (o :: os)) := by
  obtain ⟨rest, hrest⟩ := hi.text
  have hdepth := hi.depth
  rw [h.length_stack] at hdepth
  have hlength : st.start + i.render.length ≤ buffer.length := by
    have hle := h.start_le
    have := congrArg List.length hrest
    rw [List.length_drop, List.length_append] at this
    omega
  have htext : openText os ++ opening o.dict :: renderAll o.items = buffer.take st.start :=
    h.text.symm
  refine
    { start_le := hlength
      text := ?_
      tokens := ?_
      stack := ?_
      counted := ?_
      turns := ?_
      outer := h.outer
      wellFormed := ?_
      fits := ⟨?_, h.fits.2⟩ }
  -- the text read so far goes on with the item's
  · show buffer.take (st.start + i.render.length) = _
    rw [List.take_add, hrest, List.take_left, ← htext]
    simp [addItem, openText, renderAll]
  -- its tokens are offset by what was read before it
  · have hoffset : (openText os).length + 1 + (renderAll o.items).length = st.start := by
      rw [← h.length_text]
      simp only [openText, List.length_append, List.length_cons]
      omega
    simp only [after, h.tokens, addItem, openTokens, allTokens_append, hoffset, allTokens,
      List.append_nil, List.append_assoc, List.cons_append]
  · show st.turned = _
    rw [h.turned]
    rfl
  · have hcounted := h.counted
    have hlimit := hi.limit
    simp only [after, List.length_append, length_itemTokens]
    omega
  -- in a dictionary a key and a value take turns
  · intro o' ho'
    obtain rfl : { o with items := o.items ++ [i] } = o' := by simpa [addItem] using ho'
    have hturns := h.turns o (by simp)
    have hkey := hi.key
    rw [h.expectsKey] at hkey
    cases hdict : o.dict with
    | false =>
        rw [hdict, if_neg (by simp)] at hturns
        simp [turnedValue, hdict, hturns]
    | true =>
        rw [hdict, if_pos rfl] at hturns
        simp only [turnedValue, hdict, if_true]
        refine turns_append.mpr ⟨value, hturns, fun hvalue => hkey (by simp [hdict, hvalue]), rfl⟩
  · intro o' ho'
    rcases List.mem_cons.mp ho' with rfl | hmem
    · have := h.wellFormed o (by simp)
      simp [this, AllWellFormed, hi.wellFormed]
    · exact h.wellFormed o' (by simp [hmem])
  · intro j hj
    rcases List.mem_append.mp hj with hmem | hmem
    · exact h.fits.1 j hmem
    · obtain rfl := List.mem_singleton.mp hmem
      simpa using hdepth

/-- **A container is opened**, as a value where the innermost is a dictionary. -/
theorem opened {dict : Bool} {text : Bytes} (h : Reads buffer depthLimit limit st value os)
    (hdrop : buffer.drop st.start = opening dict :: text) (hlimit : 0 < st.tokenLimit)
    (hkey : st.expectsKey = false) :
    Reads buffer depthLimit limit
      { tokens := st.tokens ++ [⟨st.start, containerType dict, 0, 0⟩]
        stack := ⟨st.tokens.length, false⟩ :: st.turned
        start := st.start + 1
        tokenLimit := st.tokenLimit - 1 } false (⟨dict, []⟩ :: os) := by
  have hlt := lt_length_of_drop hdrop
  have hcounted := h.counted
  -- a container is never a key, so where the innermost is a dictionary it stands for a value
  have hvalue : ∀ o ∈ os.head?, turnedValue value os = false ∧
      (o.dict = true → Turns false o.items true) := by
    intro o ho
    cases os with
    | nil => simp at ho
    | cons o' os =>
        obtain rfl : o' = o := by simpa using ho
        have hturns := h.turns o' (by simp)
        rw [h.expectsKey] at hkey
        cases hdict : o'.dict with
        | false => simpa [turnedValue, hdict] using hturns
        | true =>
            obtain rfl : value = true := by simpa [hdict] using hkey
            simpa [turnedValue, hdict] using hturns
  refine
    { start_le := hlt
      text := ?_
      tokens := ?_
      stack := ?_
      counted := ?_
      turns := ?_
      outer := ?_
      wellFormed := ?_
      fits := ⟨by simp, h.fits⟩ }
  · dsimp only
    rw [List.take_add, hdrop, h.text]
    simp [openText, renderAll]
  · simp [openTokens, allTokens, h.tokens, h.length_text]
  · simp only [openFrames, h.turned, ← h.tokens]
    cases os with
    | nil => rfl
    | cons o os =>
        rw [(hvalue o (by simp)).1]
        rfl
  · simp only [List.length_append, List.length_singleton]
    omega
  · intro o ho
    obtain rfl : (⟨dict, []⟩ : OpenContainer) = o := by simpa using ho
    simp [Turns]
  · intro o ho hdict
    cases os with
    | nil => simp at ho
    | cons o' os =>
        rcases List.mem_cons.mp ho with rfl | hmem
        · exact (hvalue o (by simp)).2 hdict
        · exact h.outer o hmem hdict
  · intro o ho
    rcases List.mem_cons.mp ho with rfl | hmem
    · trivial
    · exact h.wellFormed o hmem

/-- **The end of the innermost container** completes it as an item of the one around it. -/
theorem closed {o : OpenContainer} {text : Bytes}
    (h : Reads buffer depthLimit limit st value (o :: os))
    (hdrop : buffer.drop st.start = byte 'e' :: text) (hlimit : 0 < st.tokenLimit)
    (hdepth : os.length + 1 < depthLimit) (hvalue : (o.dict && value) = false) :
    ∃ st₀ value₀, Reads buffer depthLimit limit st₀ value₀ os ∧
      Ready buffer depthLimit st₀ (.sequence o.dict o.items) ∧
      st.stack = ⟨st₀.tokens.length, value⟩ :: st₀.turned ∧
      st.tokens = st₀.tokens ++
        ⟨st₀.start, containerType o.dict, 0, 0⟩ :: allTokens (st₀.start + 1) o.items ∧
      st.start = st₀.start + 1 + (renderAll o.items).length ∧
      st.tokenLimit = st₀.tokenLimit - (countAll o.items + 1) := by
  -- the state in which the container was opened
  let value₀ : Bool := (os.head?).any (·.dict)
  let st₀ : Decoder :=
    { tokens := openTokens os
      stack := openFrames value₀ os
      start := (openText os).length
      tokenLimit := st.tokenLimit + (countAll o.items + 1) }
  have hlength := h.length_text
  simp only [openText, List.length_append, List.length_cons] at hlength
  have htake : buffer.take st.start = openText (o :: os) := h.text
  have hprefix : openText os = buffer.take (openText os).length := by
    have := congrArg (List.take (openText os).length) htake
    rw [List.take_take, Nat.min_eq_left (by omega), openText, List.take_left] at this
    exact this.symm
  have hturned : st.tokens.length = (openTokens os).length + (countAll o.items + 1) := by
    rw [h.tokens]
    simp only [openTokens, List.length_append, List.length_cons, length_allTokens]
  have hreads : Reads buffer depthLimit limit st₀ value₀ os := by
    refine
      { start_le := by have := h.start_le; simp only [st₀]; omega
        text := hprefix.symm
        tokens := rfl
        stack := rfl
        counted := ?_
        turns := ?_
        outer := fun o' ho' => h.outer o' (List.mem_of_mem_tail ho')
        wellFormed := fun o' ho' => h.wellFormed o' (by simp [ho'])
        fits := h.fits.2 }
    · have := h.counted
      simp only [st₀]
      omega
    · intro o' ho'
      have houter := h.outer o' (List.mem_of_mem_head? ho')
      have hvalue₀ : value₀ = o'.dict := by
        show (os.head?).any (·.dict) = o'.dict
        rw [Option.mem_def.mp ho']
        rfl
      cases hdict : o'.dict with
      | false => simp [hvalue₀, hdict]
      | true => simpa [hvalue₀, hdict] using houter hdict
  -- the container was opened where a value may stand
  have hkey : st₀.expectsKey = false := by
    cases os with
    | nil => rfl
    | cons o' os =>
        rw [hreads.expectsKey]
        simp [value₀]
  -- after it the dictionary around it waits for a key again
  have hframes : openFrames (turnedValue value₀ os) os = outerFrames os := by
    cases os with
    | nil => rfl
    | cons o' os =>
        have : turnedValue value₀ (o' :: os) = false := by
          cases hdict : o'.dict with
          | false => simp [turnedValue, value₀, hdict]
          | true => simp [turnedValue, value₀, hdict]
        rw [this]
        rfl
  refine ⟨st₀, value₀, hreads, ?_, ?_, ?_, ?_, ?_⟩
  · refine
      { text := ⟨text, ?_⟩
        wellFormed := ⟨h.wellFormed o (by simp), fun hdict => ?_⟩
        depth := ?_
        limit := ?_
        key := fun hexpects => absurd hexpects (by simp [hkey]) }
    · -- the text of the container is what stands between its beginning and its end
      have hsplit : buffer = openText os ++ (opening o.dict :: renderAll o.items) ++
          byte 'e' :: text := by
        rw [← hdrop, ← openText, ← htake, List.take_append_drop]
      show buffer.drop (openText os).length = _
      rw [Item.render]
      conv_lhs => rw [hsplit, List.append_assoc, List.drop_left]
      simp
    · have hturns := h.turns o (by simp)
      rw [hdict, if_pos rfl] at hturns
      rw [hdict, Bool.true_and] at hvalue
      rwa [hvalue] at hturns
    · rw [hreads.length_stack, Item.nesting]
      have hlt : nestingAll o.items < depthLimit - (os.length + 1) :=
        (nestingAll_lt_iff (by omega)).mpr fun i hi => by
          have := h.fits.1 i hi
          omega
      omega
    · simp only [st₀, Item.count]
      omega
  · rw [h.stack, hreads.turned, hframes]
    rfl
  · exact h.tokens
  · simp only [st₀]
    omega
  · simp only [st₀]
    omega

end Reads

/-! ## One round -/

theorem readInteger_eq_ok {text : Bytes} (hdrop : buffer.drop st.start = byte 'i' :: text)
    (h : st.counted.readInteger buffer = .ok st') :
    ∃ body rest, buffer.drop st.start = (Item.integer body).render ++ rest ∧ IsIntegerText body := by
  have hdrop' := (getElem?_start hdrop).2
  unfold readInteger at h
  rw [show st.counted.start = st.start from rfl, hdrop'] at h
  split at h
  · cases h
  · rename_i n hcheck
    obtain ⟨body, rest, rfl, hbody, -⟩ := checkInteger_eq_none.mp hcheck
    refine ⟨body, rest, ?_, hbody⟩
    rw [hdrop, Item.render]
    simp

theorem readString_eq_ok {c : UInt8} {text : Bytes} (hdrop : buffer.drop st.start = c :: text)
    (h : st.counted.readString buffer c = .ok st') :
    ∃ length content rest, buffer.drop st.start = (Item.string length content).render ++ rest ∧
      IsLengthText length content := by
  have hdrop' := (getElem?_start hdrop).2
  have hlt := lt_length_of_drop hdrop
  have hlength : text.length = buffer.length - (st.start + 1) := by
    rw [← hdrop', List.length_drop]
  unfold readString at h
  dsimp only [counted] at h
  split at h
  · cases h
  -- from here on each check of the branch that reads a string has passed
  · rename_i hc
    rw [Bool.not_eq_false] at hc
    split at h
    · cases h
    · rw [hdrop'] at h
      obtain ⟨n, len, e, hparse⟩ :
          ∃ n len e, parseInt (byte ':') text (c.toNat - 48) = (n, len, e) := ⟨_, _, _, rfl⟩
      rw [hparse] at h
      dsimp only at h
      split at h
      · cases h
      · obtain ⟨digits, rest, rfl, rfl, hdigits, rfl, hrest⟩ := parseInt_eq_none hparse
        rw [List.length_append] at hlength
        split at h
        · cases h
        · rename_i hcolon
          split at h
          · cases h
          · rename_i hlen
            split at h
            · cases h
            · rename_i hheader
              obtain ⟨rest', rfl⟩ : ∃ rest', rest = byte ':' :: rest' := by
                -- a length at the end of the buffer has no colon behind it
                rcases hrest with rfl | hhead
                · exfalso
                  rw [List.length_nil] at hlength
                  omega
                · exact List.head?_eq_some_iff.mp hhead
              rw [List.length_cons] at hlength
              refine ⟨c :: digits, rest'.take (decimalFrom (c.toNat - 48) digits),
                rest'.drop (decimalFrom (c.toNat - 48) digits), ?_, by simp, ?_, ?_, ?_⟩
              · rw [hdrop, Item.render]
                simp
              · intro d hd
                rcases List.mem_cons.mp hd with rfl | hmem
                · exact hc
                · exact hdigits d hmem
              · rw [List.length_cons]
                unfold maxHeader at hheader
                omega
              · rw [decimalValue_cons, List.length_take, Nat.min_eq_left (by omega)]

/-- What a round does: it opens a container, or completes an item. -/
inductive Advances (buffer : Bytes) (depthLimit limit : Nat) (st' : Decoder)
    (os : List OpenContainer) : Prop
  | opened (dict : Bool) (h : Reads buffer depthLimit limit st' false (⟨dict, []⟩ :: os))
  | completed (st₀ : Decoder) (value₀ : Bool) (os₀ : List OpenContainer) (i : Item)
      (h : Reads buffer depthLimit limit st₀ value₀ os₀) (hi : Ready buffer depthLimit st₀ i)
      (after : st' = st₀.after i)

/-- **A round opens a container or completes an item**, and takes a byte at least. -/
theorem next_eq_ok (hbuffer : buffer.length ≤ maxOffset)
    (h : Reads buffer depthLimit limit st value os) (hnext : st.next buffer depthLimit = .ok st') :
    Advances buffer depthLimit limit st' os ∧ st.start < st'.start := by
  unfold next at hnext
  cases hget : buffer[st.start]? with
  | none =>
      rw [hget] at hnext
      cases hnext
  | some c =>
      rw [hget] at hnext
      obtain ⟨hlt, hc⟩ := List.getElem?_eq_some_iff.mp hget
      have hdrop : buffer.drop st.start = c :: buffer.drop (st.start + 1) := by
        rw [List.drop_eq_getElem_cons hlt, hc]
      dsimp only at hnext
      split at hnext
      · cases hnext
      -- the checks before the switch: depth, number of tokens, a key where one must stand
      rename_i hdepth
      split at hnext
      · cases hnext
      rename_i hlimit
      split at hnext
      · cases hnext
      rename_i hmiss
      rw [h.length_stack] at hdepth
      -- only a string or an end may stand where a key must
      have hkey : numeric c = false → c ≠ byte 'e' → st.expectsKey = false := by
        intro hnum hne
        have hmiss' : st.missesKey c = false := (Bool.not_eq_true _).mp hmiss
        simpa [missesKey, hnum, hne] using hmiss'
      change st.counted.switch buffer c = .ok st' at hnext
      by_cases hd : c = byte 'd'
      · subst hd
        have hopen : st.counted.openContainer (containerType true) = .ok st' := hnext
        rw [openContainer_ok] at hopen
        obtain rfl := Except.ok.inj hopen
        exact ⟨.opened true (h.opened hdrop (by omega) (hkey (by decide) (by decide))),
          Nat.lt_succ_self _⟩
      by_cases hl : c = byte 'l'
      · subst hl
        have hopen : st.counted.openContainer (containerType false) = .ok st' := hnext
        rw [openContainer_ok] at hopen
        obtain rfl := Except.ok.inj hopen
        exact ⟨.opened false (h.opened hdrop (by omega) (hkey (by decide) (by decide))),
          Nat.lt_succ_self _⟩
      by_cases hi : c = byte 'i'
      · subst hi
        have hread : st.counted.readInteger buffer = .ok st' := hnext
        obtain ⟨body, rest, htext, hbody⟩ := readInteger_eq_ok hdrop hread
        rw [readInteger_ok hbody htext] at hread
        obtain rfl := Except.ok.inj hread
        have hexpects := hkey (by decide) (by decide)
        refine ⟨.completed st value os (.integer body) h ⟨⟨rest, htext⟩, hbody, ?_, ?_, ?_⟩ rfl, ?_⟩
        · simp only [Item.nesting, h.length_stack]
          omega
        · simp only [Item.count]
          omega
        · intro hexp
          rw [hexpects] at hexp
          cases hexp
        · have := length_render_pos (.integer body)
          simp only [after]
          omega
      by_cases he : c = byte 'e'
      · subst he
        have hclose : st.counted.closeContainer = .ok st' := hnext
        have hclose' := hclose
        unfold closeContainer at hclose'
        rw [show st.counted.stack = st.stack from rfl, h.stack] at hclose'
        -- an end needs a container to end
        cases os with
        | nil => cases hclose'
        | cons o os =>
            simp only [openFrames] at hclose'
            split at hclose'
            · cases hclose'
            rename_i hvalue
            split at hclose'
            · cases hclose'
            have hisDict : st.counted.isDict ⟨(openTokens os).length, value⟩ = o.dict := h.isDict value
            rw [hisDict, Bool.not_eq_true] at hvalue
            obtain ⟨st₀, value₀, hreads, hready, hstack, htokens, hstart, htokenLimit⟩ :=
              h.closed hdrop (by omega) (by simp only [List.length_cons] at hdepth; omega) hvalue
            have hcount : countAll o.items + 2 ≤ maxNextItem := by
              obtain ⟨rest, hrest⟩ := hready.text
              have hle := count_le_length_render (.sequence o.dict o.items)
              have hlen := congrArg List.length hrest
              simp only [List.length_drop, List.length_append, Item.count] at hle hlen
              unfold maxOffset at hbuffer
              unfold maxNextItem
              omega
            have hok : st.counted.closeContainer
                = .ok (st₀.after (.sequence o.dict o.items)) := by
              refine closeContainer_ok hstack htokens hstart ?_ ?_ hcount
              · simp only [counted]
                omega
              · intro hdict
                simpa [hdict] using hvalue
            rw [hok] at hclose
            obtain rfl := Except.ok.inj hclose
            refine ⟨.completed st₀ value₀ os _ hreads hready rfl, ?_⟩
            simp only [after, Item.render, List.length_append, List.length_cons, List.length_nil]
            omega
      -- every other character begins a string
      have hread : st.counted.readString buffer c = .ok st' := by
        unfold switch at hnext
        rwa [if_neg hd, if_neg hl, if_neg hi, if_neg he] at hnext
      obtain ⟨length, content, rest, htext, hlength⟩ := readString_eq_ok hdrop hread
      obtain ⟨c', hget', -, hok⟩ := readString_ok hlength htext
      obtain rfl : c = c' := Option.some.inj (hget.symm.trans hget')
      rw [hok] at hread
      obtain rfl := Except.ok.inj hread
      refine ⟨.completed st value os (.string length content) h
        ⟨⟨rest, htext⟩, hlength, ?_, ?_, fun _ => rfl⟩ rfl, ?_⟩
      · simp only [Item.nesting, h.length_stack]
        omega
      · simp only [Item.count]
        omega
      · have := length_render_pos (.string length content)
        simp only [after]
        omega

/-! ## Failing -/

/-- A failed round has read no item: its tokens and its stack are as before, and it has stopped
inside the text. -/
structure StopsAt (buffer : Bytes) (st : Decoder) (failure : BdecodeFailure) : Prop where
  tokens : failure.decoder.tokens = st.tokens
  stack : failure.decoder.stack = st.stack
  start_le : st.start ≤ failure.decoder.start
  le_length : failure.decoder.start ≤ buffer.length
  errorPos_le : failure.errorPos ≤ buffer.length

theorem stopsAt_fail {e : BdecodeError} {failure : BdecodeFailure} {n : Nat}
    (h : ({ st with tokenLimit := n } : Decoder).fail e = .error failure)
    (hle : st.start ≤ buffer.length) : StopsAt buffer st failure := by
  obtain rfl := Except.error.inj h
  exact ⟨rfl, rfl, Nat.le_refl _, hle, hle⟩

theorem readString_error {c : UInt8} {failure : BdecodeFailure} (hlt : st.start < buffer.length)
    (h : st.counted.readString buffer c = .error failure) : StopsAt buffer st failure := by
  have hle := parseInt_le (byte ':') (buffer.drop (st.start + 1)) (c.toNat - 48)
  rw [List.length_drop] at hle
  unfold readString at h
  dsimp only [counted] at h
  obtain ⟨n, len, e, hparse⟩ : ∃ n len e,
      parseInt (byte ':') (buffer.drop (st.start + 1)) (c.toNat - 48) = (n, len, e) :=
    ⟨_, _, _, rfl⟩
  rw [hparse] at h hle
  dsimp only at h hle
  have hstop : ∀ (e : BdecodeError) (n : Nat), n ≤ buffer.length → st.start ≤ n →
      ({ st with start := n, tokenLimit := st.tokenLimit - 1 } : Decoder).fail e = .error failure →
      StopsAt buffer st failure := by
    intro e n hn hge hfail
    obtain rfl := Except.error.inj hfail
    exact ⟨rfl, rfl, hge, hn, hn⟩
  -- each check of the branch stops where it has read to, which is inside the text
  split at h
  · exact hstop _ _ (by omega) (Nat.le_refl _) h
  split at h
  · exact hstop _ _ (by omega) (by omega) h
  split at h
  · exact hstop _ _ (by omega) (by omega) h
  split at h
  · exact hstop _ _ (by omega) (by omega) h
  split at h
  · exact hstop _ _ (by omega) (by omega) h
  split at h
  · exact hstop _ _ (by omega) (by omega) h
  · cases h

/-- **A round that fails leaves the open containers as they are.** -/
theorem next_eq_error (hbuffer : buffer.length ≤ maxOffset)
    (h : Reads buffer depthLimit limit st value os) {failure : BdecodeFailure}
    (hnext : st.next buffer depthLimit = .error failure) : StopsAt buffer st failure := by
  unfold next at hnext
  cases hget : buffer[st.start]? with
  | none =>
      rw [hget] at hnext
      exact stopsAt_fail hnext h.start_le
  | some c =>
      rw [hget] at hnext
      obtain ⟨hlt, hc⟩ := List.getElem?_eq_some_iff.mp hget
      dsimp only at hnext
      split at hnext
      · exact stopsAt_fail hnext h.start_le
      split at hnext
      · exact stopsAt_fail hnext h.start_le
      split at hnext
      · exact stopsAt_fail hnext h.start_le
      -- 'd' and 'l' cannot fail: what is left are an integer, an end and a string
      unfold switch at hnext
      split at hnext
      · cases hnext
      split at hnext
      · cases hnext
      split at hnext
      · unfold readInteger at hnext
        split at hnext
        · rename_i n e hcheck
          have hle := checkInteger_le (buffer.drop (st.start + 1))
          dsimp only at hcheck
          rw [hcheck, List.length_drop] at hle
          obtain rfl := Except.error.inj hnext
          exact ⟨rfl, rfl, Nat.le_refl _, h.start_le, by dsimp only at hle ⊢; omega⟩
        · cases hnext
      split at hnext
      · unfold closeContainer at hnext
        dsimp only at hnext
        split at hnext
        · exact stopsAt_fail hnext h.start_le
        · rename_i frame frames hstack
          split at hnext
          · exact stopsAt_fail hnext h.start_le
          · split at hnext
            · -- there are not more tokens than bytes
              rename_i hmax
              exfalso
              have hcount : st.tokens.length ≤ st.start := h.length_tokens_le
              simp only [List.length_append, List.length_singleton] at hmax
              unfold maxOffset at hbuffer
              unfold maxNextItem at hmax
              omega
            · cases hnext
      · exact readString_error hlt hnext

/-! ## The whole loop -/

/-- Where the loop can end: behind a complete item, or in a failed round. -/
def EndsWith (buffer : Bytes) (depthLimit limit : Nat) :
    Except BdecodeFailure Decoder → Prop
  | .ok st => ∃ st₀ value₀ i, Reads buffer depthLimit limit st₀ value₀ [] ∧
      Ready buffer depthLimit st₀ i ∧ st = st₀.after i
  | .error failure => ∃ st₀ value₀ os, Reads buffer depthLimit limit st₀ value₀ os ∧
      StopsAt buffer st₀ failure

theorem loop_endsWith (hbuffer : buffer.length ≤ maxOffset) {k : Nat}
    (h : Reads buffer depthLimit limit st value os) (hk : buffer.length < st.start + k) :
    EndsWith buffer depthLimit limit (st.loop buffer depthLimit k) := by
  induction k generalizing st value os with
  | zero =>
      have := h.start_le
      omega
  | succ k ih =>
      cases hnext : st.next buffer depthLimit with
      | error failure =>
          rw [loop, hnext]
          exact ⟨st, value, os, h, next_eq_error hbuffer h hnext⟩
      | ok st' =>
          obtain ⟨hadvances, hstart⟩ := next_eq_ok hbuffer h hnext
          rw [loop_of_next hnext, goOn]
          cases hadvances with
          | opened dict hreads =>
              rw [if_neg (by rw [hreads.stack]; simp [openFrames])]
              exact ih hreads (by omega)
          -- the loop ends with the item that leaves no container open
          | completed st₀ value₀ os₀ i hreads hready hafter =>
              subst hafter
              cases os₀ with
              | nil =>
                  have hstack : (st₀.after i).stack = [] := by
                    show st₀.turned = []
                    rw [hreads.turned]
                    rfl
                  rw [if_pos hstack]
                  exact ⟨st₀, value₀, i, hreads, hready, rfl⟩
              | cons o os₀ =>
                  have hreads' := hreads.add hready
                  rw [if_neg (by rw [hreads'.stack]; simp [addItem, openFrames])]
                  exact ih hreads' (by omega)

theorem Reads.eq_init (h : Reads buffer depthLimit limit st value []) :
    st = { tokenLimit := limit } := by
  obtain ⟨tokens, stack, start, tokenLimit⟩ := st
  obtain rfl : tokens = [] := h.tokens
  obtain rfl : stack = [] := h.stack
  obtain rfl : start = 0 := by simpa [openText] using h.length_text.symm
  obtain rfl : tokenLimit = limit := h.counted
  rfl

/-- The tree of a text that begins with `i`. -/
def rootOf (i : Item) : BdecodeRoot where
  tokens := itemTokens 0 i ++ [⟨i.render.length, .end, 0, 0⟩]
  bufferSize := i.render.length

theorem finish_after (i : Item) (limit : Nat) :
    (({ tokenLimit := limit } : Decoder).after i).finish =
      { tokens := (rootOf i).tokens
        start := i.render.length
        tokenLimit := limit - i.count } := by
  simp [finish, after, turned, rootOf]

end Decoder

open Decoder

/-- A well-formed item within the limits is accepted. -/
theorem bdecode_render {i : Item} {rest : Bytes} {depthLimit tokenLimit : Nat}
    (hlength : (i.render ++ rest).length ≤ maxOffset) (hwf : i.WellFormed)
    (hdepth : i.nesting < depthLimit) (hcount : i.count ≤ tokenLimit) :
    bdecode (i.render ++ rest) depthLimit tokenLimit = (rootOf i, none) := by
  have hpos := length_render_pos i
  have hnil : i.render ++ rest ≠ [] := by
    intro h
    have := congrArg List.length h
    rw [List.length_append, List.length_nil] at this
    omega
  have hready : Ready (i.render ++ rest) depthLimit { tokenLimit := tokenLimit } i :=
    ⟨⟨rest, rfl⟩, hwf, hdepth, hcount, fun hkey => by cases hkey⟩
  -- one round more than the item has tokens is left over
  obtain ⟨k, hk⟩ : ∃ k, (i.render ++ rest).length + 1 = k + i.count :=
    ⟨(i.render ++ rest).length + 1 - i.count, by
      have := count_le_length_render i
      rw [List.length_append]
      omega⟩
  have hloop := loop_item hlength i k (fun frame hframe => by cases hframe) hready
  have hstack : (({ tokenLimit := tokenLimit } : Decoder).after i).stack = [] := rfl
  rw [← hk, goOn, if_pos hstack] at hloop
  unfold bdecode
  rw [if_neg (by omega)]
  dsimp only
  rw [if_neg hnil, hloop]
  dsimp only
  rw [finish_after]
  rfl

/-- What is accepted begins with a well-formed item within the limits. -/
theorem item_of_bdecode {buffer : Bytes} {depthLimit tokenLimit : Nat} {root : BdecodeRoot}
    (h : bdecode buffer depthLimit tokenLimit = (root, none)) :
    buffer.length ≤ maxOffset ∧ ∃ i rest, buffer = i.render ++ rest ∧ i.WellFormed ∧
      i.nesting < depthLimit ∧ i.count ≤ tokenLimit ∧ root = rootOf i := by
  unfold bdecode at h
  by_cases hlength : maxOffset < buffer.length
  · rw [if_pos hlength] at h
    cases h
  rw [if_neg hlength] at h
  by_cases hnil : buffer = []
  · subst hnil
    cases h
  dsimp only at h
  rw [if_neg hnil] at h
  have hends := loop_endsWith (by omega) (reads_init buffer depthLimit tokenLimit)
    (show buffer.length < 0 + (buffer.length + 1) by omega)
  cases hloop : loop buffer depthLimit (buffer.length + 1) { tokenLimit := tokenLimit } with
  | error failure =>
      rw [hloop] at h
      cases h
  | ok st =>
      rw [hloop] at h hends
      obtain ⟨st₀, value₀, i, hreads, hready, rfl⟩ := hends
      obtain rfl := hreads.eq_init
      obtain ⟨rest, htext⟩ := hready.text
      dsimp only at h
      rw [finish_after] at h
      refine ⟨by omega, i, rest, htext, hready.wellFormed, hready.depth, hready.limit, ?_⟩
      exact (congrArg Prod.fst h).symm

/-- **What `bdecode` accepts.** It succeeds exactly on the texts that begin with a well-formed
item within the limits; its tokens are those of this item. -/
theorem bdecode_iff {buffer : Bytes} {depthLimit tokenLimit : Nat} {root : BdecodeRoot} :
    bdecode buffer depthLimit tokenLimit = (root, none) ↔
      buffer.length ≤ maxOffset ∧ ∃ i rest, buffer = i.render ++ rest ∧ i.WellFormed ∧
        i.nesting < depthLimit ∧ i.count ≤ tokenLimit ∧ root = rootOf i := by
  constructor
  · exact item_of_bdecode
  · rintro ⟨hlength, i, rest, rfl, hwf, hdepth, hcount, rfl⟩
    exact bdecode_render hlength hwf hdepth hcount

end BtDownloader
