import BtDownloader.Torrent.Session

set_option autoImplicit false

/-! # Magnet links

libtorrent's `parse_magnet_uri` with the functions it calls. libtorrent's strings are made of
bytes: a byte is a `Char` below `256` here, and `utf8` makes the bytes of a text.

* `parseMagnetUri_iff`: which links are accepted, and with which info-hash: that of the last
  `xt` parameter which names one.
* `magnetLoop_enough`: the loop has rounds enough for a link of any length.
-/

namespace BtDownloader

/-- `UTF8String`. -/
def utf8 (s : Text) : Text :=
  s.flatMap fun c => (String.utf8EncodeChar c).map fun b => Char.ofNat b.toNat

/-! ## Splitting -/

/-- The character `0x22`. -/
def quoteMark : Char := Char.ofNat 34

/-- Where `split_string` begins to look for the separator: at the closing quote of a quoted
string. -/
def quotedLength (last : Text) (sep : Char) : Nat :=
  if last.head? = some quoteMark ∧ sep ≠ quoteMark then
    min (last.tail.idxOf quoteMark + 1) last.tail.length
  else 0

/-- `split_string`: the text before and the text behind the first separator. -/
def splitString (last : Text) (sep : Char) : Text × Text :=
  let quoted := quotedLength last sep
  let pos := quoted + ((last.drop quoted).takeWhile (· ≠ sep)).length
  (last.take pos, last.drop (pos + 1))

/-! ## Decoding -/

/-- `hex_to_int`. -/
def hexToInt (c : Char) : Option Nat :=
  if '0' ≤ c ∧ c ≤ '9' then some (c.toNat - '0'.toNat)
  else if 'A' ≤ c ∧ c ≤ 'F' then some (c.toNat - 'A'.toNat + 10)
  else if 'a' ≤ c ∧ c ≤ 'f' then some (c.toNat - 'a'.toNat + 10)
  else none

/-- `unescape_string`: what it has decoded, and whether it stopped with an error. -/
def unescapeString : Text → Text × Bool
  | [] => ([], false)
  | '+' :: s => let (ret, ec) := unescapeString s; (' ' :: ret, ec)
  | '%' :: high :: low :: s =>
      match hexToInt high, hexToInt low with
      | some high, some low =>
          let (ret, ec) := unescapeString s
          (Char.ofNat (high * 16 + low) :: ret, ec)
      | _, _ => ([], true)
  | '%' :: _ => ([], true)
  | c :: s => let (ret, ec) := unescapeString s; (c :: ret, ec)

/-- `from_hex`: the bytes it writes over zeros, and whether every character was a digit. -/
def fromHex : Text → Text × Bool
  | a :: b :: s =>
      match hexToInt a, hexToInt b with
      | some t₁, some t₂ => let (out, ok) := fromHex s; (Char.ofNat (t₁ * 16 + t₂) :: out, ok)
      | some t₁, none =>
          (Char.ofNat (t₁ * 16) :: List.replicate (s.length / 2) (Char.ofNat 0), false)
      | none, _ => (List.replicate (s.length / 2 + 1) (Char.ofNat 0), false)
  | _ => ([], true)

/-- The five bits that a character of a base32 string stands for. -/
def base32Value (c : Char) : Option Nat :=
  let c := c.toUpper
  if 'A' ≤ c ∧ c ≤ 'Z' then some (c.toNat - 'A'.toNat)
  else if '2' ≤ c ∧ c ≤ '7' then some (c.toNat - '2'.toNat + 26)
  else if c = '=' then some 0
  else if c = '1' then some 8
  else none

/-- Where the padding of a group begins, `0` for a full group. -/
def padStart (s : Text) : Nat :=
  if s.length < 8 then s.length
  else match s.tail.idxOf? '=' with
    | some j => j + 1
    | none => 0

/-- One round of `base32decode`: up to eight characters become up to five bytes. -/
def base32Group (s : Text) : Option Text := do
  let inbuf ← s.mapM base32Value
  let at' (j : Nat) : Nat := inbuf.getD j 0
  let outbuf := [
    (at' 0 <<< 3) &&& 0xff ||| at' 1 >>> 2,
    ((at' 1 &&& 0x3) <<< 6) &&& 0xff ||| at' 2 <<< 1 ||| (at' 3 &&& 0x10) >>> 4,
    ((at' 3 &&& 0x0f) <<< 4) &&& 0xff ||| (at' 4 &&& 0x1e) >>> 1,
    ((at' 4 &&& 0x01) <<< 7) &&& 0xff ||| (at' 5 &&& 0x1f) <<< 2 ||| (at' 6 &&& 0x18) >>> 3,
    ((at' 6 &&& 0x07) <<< 5) &&& 0xff ||| at' 7]
  let numOut := [5, 1, 1, 2, 2, 3, 4, 4, 5].getD (padStart s) 5
  pure ((outbuf.take numOut).map Char.ofNat)

/-- The loop of `base32decode`. -/
def base32Loop : Nat → Text → Option Text
  | 0, _ => some []
  | k + 1, s =>
      if s = [] then some []
      else do
        let out ← base32Group (s.take 8)
        let rest ← base32Loop k (s.drop 8)
        pure (out ++ rest)

/-- `base32decode`: empty where a character is not one of base32. -/
def base32decode (s : Text) : Text := (base32Loop s.length s).getD []

/-! ## The parameters of a link -/

/-- The errors of `parse_magnet_uri`. -/
inductive MagnetError
  | unsupportedUrlProtocol
  | invalidEscapedString
  | invalidInfoHash
  | missingInfoHashInUri
deriving DecidableEq, Repr

/-- The fields of `add_torrent_params` that a magnet link sets. An endpoint is given as text. -/
structure MagnetParams where
  infoHash : Text := List.replicate 20 (Char.ofNat 0)
  name : Text := []
  trackers : List Text := []
  trackerTiers : List Nat := []
  urlSeeds : List Text := []
  filePriorities : List Nat := []
  peers : List Text := []
  dhtNodes : List (Text × Int) := []
deriving DecidableEq

/-- The variables of `parse_magnet_uri`. -/
structure MagnetState where
  params : MagnetParams := {}
  displayName : Text := []
  tier : Nat := 0
  hasIh : Bool := false
deriving DecidableEq

/-- The name of a parameter without a number behind a period. -/
def stripNumber (name : Text) : Text :=
  let (stripped, number) := splitString name '.'
  if number.all Char.isDigit then stripped else name

/-- The info-hash behind `urn:btih:`. `from_hex` is not asked whether it succeeded. -/
def btihHash (value : Text) : Option Text :=
  if value.length = 40 then some (fromHex value).1
  else if value.length = 32 then
    let ih := base32decode value
    if ih.length = 20 then some ih else none
  else none

/-- The `xt` parameter: the info-hash, if its value is one. -/
def xtParam (value : Text) : Except MagnetError (Option Text) := do
  let value ← if '%' ∈ value then
      match unescapeString value with
      | (_, true) => throw .invalidEscapedString
      | (unescaped, false) => pure unescaped
    else pure value
  if "urn:btih:".toList.isPrefixOf value then
    match btihHash (value.drop 9) with
    | some infoHash => pure (some infoHash)
    | none => throw .invalidInfoHash
  else pure none

/-- `std::atoi`. -/
def atoi (s : Text) : Int :=
  let digits (s : Text) : Int :=
    (s.takeWhile Char.isDigit).foldl (fun n c => 10 * n + (c.toNat - '0'.toNat : Nat)) 0
  match s with
  | '-' :: s => -digits s
  | s => digits s

/-- The files that a token of the `so` parameter names. -/
def soRange (token : Text) : Option (Nat × Nat) :=
  let index (s : Text) : Option Nat :=
    let i := atoi s
    if 0 ≤ i ∧ i ≤ 10000 then some i.toNat else none
  match token.idxOf? '-' with
  | some divider => do
      if divider = 0 ∨ divider = token.length - 1 then none
      let idx₁ ← index (token.take divider)
      let idx₂ ← index (token.drop (divider + 1))
      if idx₁ ≤ idx₂ then some (idx₁, idx₂) else none
  | none => do
      let idx ← index token
      some (idx, idx)

/-- The files of `so` that have default priority. -/
def selectRange (filePriorities : List Nat) (range : Nat × Nat) : List Nat :=
  let sized := filePriorities ++ List.replicate (range.2 + 1 - filePriorities.length) prioritySkip
  sized.mapIdx fun i priority => if range.1 ≤ i ∧ i ≤ range.2 then priorityDefault else priority

/-- The loop of the `so` parameter. -/
def soLoop : Nat → Text → List Nat → List Nat
  | 0, _, filePriorities => filePriorities
  | k + 1, value, filePriorities =>
      let (token, value) := splitString value ','
      let filePriorities := match soRange token with
        | some range => if token = [] then filePriorities else selectRange filePriorities range
        | none => filePriorities
      if value = [] then filePriorities else soLoop k value filePriorities

/-- The node of a `dht` parameter. -/
def dhtNode (value : Text) : Option (Text × Int) := do
  let fromEnd ← value.reverse.idxOf? ':'
  let divider := value.length - 1 - fromEnd
  let port := atoi (value.drop (divider + 1))
  if 0 < port ∧ port < 65535 then some (value.take divider, port) else none

/-- The body of the loop of `parse_magnet_uri`. -/
def MagnetState.param (parseEndpoint : Text → Option Text) (name value : Text)
    (st : MagnetState) : Except MagnetError MagnetState :=
  let p := st.params
  if name = "dn".toList then .ok { st with displayName := (unescapeString value).1 }
  else if name = "tr".toList then
    match unescapeString value with
    | (tracker, false) => .ok { st with
        params := { p with
          trackers := p.trackers ++ [tracker]
          trackerTiers := p.trackerTiers ++ [st.tier] }
        tier := st.tier + 1 }
    | (_, true) => .ok st
  else if name = "ws".toList then
    match unescapeString value with
    | (webseed, false) => .ok { st with params := { p with urlSeeds := p.urlSeeds ++ [webseed] } }
    | (_, true) => .ok st
  else if name = "xt".toList then
    match xtParam value with
    | .ok (some infoHash) => .ok { st with
        params := { p with infoHash := infoHash }
        hasIh := true }
    | .ok none => .ok st
    | .error ec => .error ec
  else if name = "so".toList then
    if value.any fun c => !c.isDigit && c ≠ '-' && c ≠ ',' then .ok st
    else .ok { st with
      params := { p with filePriorities := soLoop (value.length + 1) value p.filePriorities } }
  else if name = "x.pe".toList then
    match parseEndpoint value with
    | some endpoint => .ok { st with params := { p with peers := p.peers ++ [endpoint] } }
    | none => .ok st
  else if name = "dht".toList then
    match dhtNode value with
    | some node => .ok { st with params := { p with dhtNodes := p.dhtNodes ++ [node] } }
    | none => .ok st
  else .ok st

/-- The loop of `parse_magnet_uri`. -/
def magnetLoop (parseEndpoint : Text → Option Text) :
    Nat → Text → MagnetState → Except MagnetError MagnetState
  | 0, _, st => .ok st
  | k + 1, sv, st =>
      if sv = [] then .ok st
      else
        let (name, sv) := splitString sv '='
        let (value, sv) := splitString sv '&'
        match st.param parseEndpoint (stripNumber name) value with
        | .ok st => magnetLoop parseEndpoint k sv st
        | .error ec => .error ec

/-- `parse_magnet_uri`; `parseEndpoint` is `parse_endpoint`. -/
def parseMagnetUri (parseEndpoint : Text → Option Text) (uri : Text) :
    Except MagnetError MagnetParams :=
  if uri.take 8 ≠ "magnet:?".toList then .error .unsupportedUrlProtocol
  else
    match magnetLoop parseEndpoint uri.length (uri.drop 8) {} with
    | .error ec => .error ec
    | .ok st =>
        if st.hasIh = false then .error .missingInfoHashInUri
        else if st.displayName ≠ [] then .ok { st.params with name := st.displayName }
        else .ok st.params

/-! ## The links that are accepted -/

/-- The name and the value of the first parameter. -/
def firstParameter (sv : Text) : Text × Text :=
  (stripNumber (splitString sv '=').1, (splitString (splitString sv '=').2 '&').1)

/-- What is behind the first parameter. -/
def otherParameters (sv : Text) : Text := (splitString (splitString sv '=').2 '&').2

/-- The parameters of a link, as the loop of `parse_magnet_uri` cuts them out. -/
def magnetParameters : Nat → Text → List (Text × Text)
  | 0, _ => []
  | k + 1, sv =>
      if sv = [] then [] else firstParameter sv :: magnetParameters k (otherParameters sv)

/-- The info-hash that a parameter names, or the error it makes. -/
def infoHash? (q : Text × Text) : Except MagnetError (Option Text) :=
  if q.1 = "xt".toList then xtParam q.2 else .ok none

/-- The info-hash of the last parameter that names one. -/
def lastHash : List (Text × Text) → Option Text
  | [] => none
  | q :: qs => (lastHash qs).or (match infoHash? q with
    | .ok h => h
    | .error _ => none)

/-- The info-hash that the loop has found. -/
def MagnetState.infoHash? (st : MagnetState) : Option Text :=
  if st.hasIh then some st.params.infoHash else none

section

variable {parseEndpoint : Text → Option Text} {q : Text × Text} {st st' : MagnetState}

theorem param_error {ec : MagnetError} (hq : infoHash? q = .error ec) :
    st.param parseEndpoint q.1 q.2 = .error ec := by
  unfold infoHash? at hq
  split at hq
  · rename_i hname
    unfold MagnetState.param
    rw [hname, hq]
    rfl
  · cases hq

theorem param_ok {h? : Option Text} (hq : infoHash? q = .ok h?) :
    ∃ st', st.param parseEndpoint q.1 q.2 = .ok st' ∧ st'.infoHash? = h?.or st.infoHash? := by
  unfold infoHash? at hq
  split at hq
  · rename_i hname
    unfold MagnetState.param
    rw [hname, hq]
    cases h? with
    | none => exact ⟨st, rfl, rfl⟩
    | some h => exact ⟨_, rfl, rfl⟩
  · rename_i hname
    obtain rfl : none = h? := Except.ok.inj hq
    unfold MagnetState.param
    dsimp only
    rw [if_neg hname, Option.none_or]
    repeat' split
    all_goals exact ⟨_, rfl, rfl⟩

theorem magnetLoop_succ (k : Nat) (sv : Text) (st : MagnetState) :
    magnetLoop parseEndpoint (k + 1) sv st =
      if sv = [] then .ok st
      else match st.param parseEndpoint (firstParameter sv).1 (firstParameter sv).2 with
        | .ok st => magnetLoop parseEndpoint k (otherParameters sv) st
        | .error ec => .error ec := rfl

theorem splitString_rest_lt {sv : Text} (hsv : sv ≠ []) (sep : Char) :
    (splitString sv sep).2.length < sv.length := by
  have hpos : 0 < sv.length := List.length_pos_iff.mpr hsv
  unfold splitString
  rw [List.length_drop]
  omega

theorem splitString_rest_le (sv : Text) (sep : Char) :
    (splitString sv sep).2.length ≤ sv.length := by
  unfold splitString
  rw [List.length_drop]
  omega

/-- Every round shortens the link, so the loop does not run out of rounds. -/
theorem magnetLoop_enough {k : Nat} {sv : Text} (hk : sv.length ≤ k) (st : MagnetState) :
    magnetLoop parseEndpoint (k + 1) sv st = magnetLoop parseEndpoint k sv st := by
  induction k generalizing sv st with
  | zero =>
      obtain rfl : sv = [] := List.length_eq_zero_iff.mp (by omega)
      rfl
  | succ k ih =>
      rw [magnetLoop_succ, magnetLoop_succ]
      by_cases hsv : sv = []
      · rw [if_pos hsv, if_pos hsv]
      · have hrest : (otherParameters sv).length ≤ k := by
          have hname := splitString_rest_lt hsv '='
          have hvalue := splitString_rest_le (splitString sv '=').2 '&'
          unfold otherParameters
          omega
        rw [if_neg hsv, if_neg hsv]
        split
        · exact ih hrest _
        · rfl

/-- The loop accepts what makes no error, and keeps the last info-hash. -/
theorem magnetLoop_ok (k : Nat) (sv : Text) (st : MagnetState)
    (hqs : ∀ q ∈ magnetParameters k sv, ∃ h?, infoHash? q = .ok h?) :
    ∃ st', magnetLoop parseEndpoint k sv st = .ok st' ∧
      st'.infoHash? = (lastHash (magnetParameters k sv)).or st.infoHash? := by
  induction k generalizing sv st with
  | zero => exact ⟨st, rfl, rfl⟩
  | succ k ih =>
      rw [magnetParameters] at hqs ⊢
      rw [magnetLoop_succ]
      by_cases hsv : sv = []
      · rw [if_pos hsv, if_pos hsv]
        exact ⟨st, rfl, rfl⟩
      · rw [if_neg hsv] at hqs
        rw [if_neg hsv, if_neg hsv]
        obtain ⟨h?, hh⟩ := hqs _ List.mem_cons_self
        obtain ⟨st₁, hst₁, hhash⟩ := @param_ok parseEndpoint _ st h? hh
        obtain ⟨st', hst', hhash'⟩ := ih _ st₁ fun q hq => hqs q (List.mem_cons_of_mem _ hq)
        rw [hst₁]
        refine ⟨st', hst', ?_⟩
        rw [hhash', hhash, lastHash, hh, Option.or_assoc]

theorem magnetLoop_error (k : Nat) (sv : Text) (st : MagnetState)
    (hqs : ∃ q ∈ magnetParameters k sv, ∃ ec, infoHash? q = .error ec) :
    ∃ ec, magnetLoop parseEndpoint k sv st = .error ec := by
  induction k generalizing sv st with
  | zero =>
      obtain ⟨q, hq, -⟩ := hqs
      exact absurd hq List.not_mem_nil
  | succ k ih =>
      rw [magnetParameters] at hqs
      rw [magnetLoop_succ]
      by_cases hsv : sv = []
      · rw [if_pos hsv] at hqs
        obtain ⟨q, hq, -⟩ := hqs
        exact absurd hq List.not_mem_nil
      · rw [if_neg hsv] at hqs ⊢
        obtain ⟨q, hq, ec, hec⟩ := hqs
        cases hparam : st.param parseEndpoint (firstParameter sv).1 (firstParameter sv).2 with
        | error ec' => exact ⟨ec', rfl⟩
        | ok st₁ =>
            rcases List.mem_cons.mp hq with rfl | hq
            · rw [param_error hec] at hparam
              cases hparam
            · exact ih _ st₁ ⟨q, hq, ec, hec⟩

end

/-- The parameters of a magnet link. -/
def linkParameters (uri : Text) : List (Text × Text) := magnetParameters uri.length (uri.drop 8)

/-- **What `parse_magnet_uri` accepts**: links of which no `xt` parameter makes an error and
one names an info-hash; the last of these is the info-hash of the torrent. -/
theorem parseMagnetUri_iff {parseEndpoint : Text → Option Text} {uri ih : Text} :
    (∃ p, parseMagnetUri parseEndpoint uri = .ok p ∧ p.infoHash = ih) ↔
      uri.take 8 = "magnet:?".toList ∧ (∀ q ∈ linkParameters uri, ∃ h?, infoHash? q = .ok h?) ∧
        lastHash (linkParameters uri) = some ih := by
  unfold parseMagnetUri linkParameters
  by_cases hscheme : uri.take 8 = "magnet:?".toList
  · rw [if_neg (not_not.mpr hscheme)]
    by_cases hqs : ∀ q ∈ magnetParameters uri.length (uri.drop 8), ∃ h?, infoHash? q = .ok h?
    · -- the loop comes through, with the last info-hash among the parameters
      obtain ⟨st, hst, hhash⟩ := @magnetLoop_ok parseEndpoint uri.length (uri.drop 8) {} hqs
      have hnone : ({} : MagnetState).infoHash? = none := rfl
      rw [hnone, Option.or_none] at hhash
      rw [hst, ← hhash]
      unfold MagnetState.infoHash?
      dsimp only
      cases hih : st.hasIh with
      | false =>
          rw [if_pos rfl]
          simp
      | true =>
          rw [if_neg (by decide), if_pos rfl]
          constructor
          · rintro ⟨p, hp, rfl⟩
            refine ⟨hscheme, hqs, ?_⟩
            split at hp <;> rw [← Except.ok.inj hp]
          · rintro ⟨-, -, h⟩
            split
            · exact ⟨_, rfl, Option.some.inj h⟩
            · exact ⟨_, rfl, Option.some.inj h⟩
    · have herror : ∃ q ∈ magnetParameters uri.length (uri.drop 8),
          ∃ ec, infoHash? q = .error ec := by
        simp only [not_forall] at hqs
        obtain ⟨q, hq, hno⟩ := hqs
        refine ⟨q, hq, ?_⟩
        cases hinfo : infoHash? q with
        | error ec => exact ⟨ec, rfl⟩
        | ok h? => exact absurd ⟨h?, hinfo⟩ hno
      -- a bad parameter stops the loop
      obtain ⟨ec, hec⟩ := @magnetLoop_error parseEndpoint uri.length (uri.drop 8) {} herror
      rw [hec]
      constructor
      · rintro ⟨p, hp, -⟩
        cases hp
      · rintro ⟨-, hok, -⟩
        exact absurd hok hqs
  · rw [if_pos hscheme]
    constructor
    · rintro ⟨p, hp, -⟩
      cases hp
    · rintro ⟨h, -⟩
      exact absurd h hscheme

end BtDownloader
