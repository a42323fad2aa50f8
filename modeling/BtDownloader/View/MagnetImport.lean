import BtDownloader.Torrent.MagnetUri
import BtDownloader.Client.Streamer

set_option autoImplicit false

/-! # Importing a magnet link from the pasteboard

`sceneWillEnterForeground` forwards a pasteboard string that starts with `magnet` to
`writeTorrentwithMagnet`, which looks for the text between `urn:btih:` and `&dn=` and asks a
server for the torrent of that name.

`rangeOfString:` is a search for the very characters here. Without options Foundation takes a
character together with the combining marks behind it, so that it passes over an occurrence whose
last character is followed by such a mark.

* `importAgrees_iff`: which links are imported as `parse_magnet_uri` understands them.
-/

namespace BtDownloader

/-! ## Strings of Foundation -/

/-- `NSNotFound`. -/
def nsNotFound : Nat := 2 ^ 63 - 1

/-- `NSString`: a position in it is never `NSNotFound`. -/
abbrev NSString := { s : Text // s.length < nsNotFound }

/-- The sum of two numbers of type `NSUInteger`. -/
def nsAdd (a b : Nat) : Nat := (a + b) % 2 ^ 64

/-- `NSRangeException`. -/
inductive RangeException
  | outOfBounds
deriving DecidableEq, Repr

/-- The location that `rangeOfString:` answers. -/
def rangeOfString (needle s : Text) : Nat :=
  ((List.range (s.length + 1)).find? fun i => needle.isPrefixOf (s.drop i)).getD nsNotFound

/-- `substringFromIndex:`. -/
def substringFromIndex (s : Text) (i : Nat) : Except RangeException Text :=
  if i ≤ s.length then .ok (s.drop i) else .error .outOfBounds

/-- `substringWithRange:`. -/
def substringWithRange (s : Text) (location length : Nat) : Except RangeException Text :=
  if location ≤ s.length ∧ length ≤ s.length - location then .ok ((s.drop location).take length)
  else .error .outOfBounds

/-- `writeTorrentwithMagnet` up to its request: the hash word that it asks the server for. -/
def writeTorrentwithMagnet (object : NSString) : Except RangeException Text := do
  let hashtag := rangeOfString "urn:btih:".toList object.val
  let word := rangeOfString "&dn=".toList (← substringFromIndex object.val (nsAdd hashtag 9))
  substringWithRange object.val (nsAdd hashtag 9) word

/-- `sceneWillEnterForeground`: the string that it forwards, if any. -/
def sceneWillEnterForeground (content : Option NSString) : Option NSString :=
  content.filter fun s => isMagnet s.val

/-! ## What the two parsers have to agree on -/

/-- The word is 40 hexadecimal or 32 base32 characters that stand for the info-hash. -/
def IsBtih (word infoHash : Text) : Prop :=
  ((utf8 word).length = 40 ∧ fromHex (utf8 word) = (infoHash, true)) ∨
  ((utf8 word).length = 32 ∧ infoHash.length = 20 ∧ base32decode (utf8 word) = infoHash)

instance (word infoHash : Text) : Decidable (IsBtih word infoHash) :=
  inferInstanceAs (Decidable (_ ∨ _))

/-- Somewhere in the string, `urn:btih:` is followed by the name of an info-hash, up to the next
`&` or the end. -/
def HasBtih (s : Text) : Prop :=
  ∃ i infoHash, "urn:btih:".toList <+: s.drop i ∧
    IsBtih ((s.drop (i + 9)).takeWhile (· ≠ '&')) infoHash

/-- **The import agrees with the parser** about a string of the pasteboard. Where the string is
forwarded, no exception is raised; a link that the parser accepts is asked for under a name of
its info-hash; and a request is made only for a string with the name of an info-hash. -/
def ImportAgrees (parseEndpoint : Text → Option Text) (content : Option NSString) : Prop :=
  ∀ s, sceneWillEnterForeground content = some s →
    (∃ word, writeTorrentwithMagnet s = .ok word) ∧
    (∀ p, parseMagnetUri parseEndpoint (utf8 s.val) = .ok p →
      ∃ word, writeTorrentwithMagnet s = .ok word ∧ IsBtih word p.infoHash) ∧
    (¬ HasBtih s.val → ∀ word, writeTorrentwithMagnet s ≠ .ok word)

/-! ## What the import reads off a string -/

/-- `needle` occurs at position `k` of the string, and not before. -/
def FirstAt (needle s : Text) (k : Nat) : Prop :=
  needle <+: s.drop k ∧ ∀ i < k, ¬ needle <+: s.drop i

/-- The word is the text between the first `urn:btih:` and the next `&dn=`. -/
def Between (s word : Text) : Prop :=
  ∃ k j, FirstAt "urn:btih:".toList s k ∧ FirstAt "&dn=".toList (s.drop (k + 9)) j ∧
    word = (s.drop (k + 9)).take j

theorem prefix_drop_lt {needle s : Text} {k : Nat} (hneedle : needle ≠ [])
    (h : needle <+: s.drop k) : k + needle.length ≤ s.length := by
  have hle := h.length_le
  have hpos : 0 < needle.length := List.length_pos_iff.mpr hneedle
  rw [List.length_drop] at hle
  omega

/-- What `rangeOfString:` answers is the first occurrence, or `NSNotFound`. -/
theorem rangeOfString_cases (needle s : Text) (hneedle : needle ≠ []) :
    FirstAt needle s (rangeOfString needle s) ∨
      (rangeOfString needle s = nsNotFound ∧ ∀ k, ¬ needle <+: s.drop k) := by
  unfold rangeOfString
  cases hfind : (List.range (s.length + 1)).find? fun i => needle.isPrefixOf (s.drop i) with
  | some k =>
      obtain ⟨hk, -, hfirst⟩ := List.find?_range_eq_some.mp hfind
      refine Or.inl ⟨List.isPrefixOf_iff_prefix.mp hk, fun i hi hprefix => ?_⟩
      have hno := hfirst i hi
      rw [List.isPrefixOf_iff_prefix.mpr hprefix] at hno
      cases hno
  | none =>
      refine Or.inr ⟨rfl, fun k hprefix => ?_⟩
      have hlt := prefix_drop_lt hneedle hprefix
      have hno := List.find?_eq_none.mp hfind k (List.mem_range.mpr (by omega))
      exact hno (List.isPrefixOf_iff_prefix.mpr hprefix)

theorem FirstAt.unique {needle s : Text} {k k' : Nat} (h : FirstAt needle s k)
    (h' : FirstAt needle s k') : k = k' := by
  by_contra hne
  rcases Nat.lt_or_gt_of_ne hne with hlt | hlt
  · exact h'.2 k hlt h.1
  · exact h.2 k' hlt h'.1

theorem nsAdd_of_lt {a b : Nat} (h : a + b < 2 ^ 64) : nsAdd a b = a + b := Nat.mod_eq_of_lt h

/-- Where `urn:btih:` is found, the rest of the string decides. -/
theorem write_of_first {s : NSString} {k : Nat} (hk : FirstAt "urn:btih:".toList s.val k)
    (hrange : rangeOfString "urn:btih:".toList s.val = k) {word : Text} :
    writeTorrentwithMagnet s = .ok word ↔
      ∃ j, FirstAt "&dn=".toList (s.val.drop (k + 9)) j ∧ word = (s.val.drop (k + 9)).take j := by
  have hlength : s.val.length < 2 ^ 63 - 1 := s.property
  have hle : k + 9 ≤ s.val.length := prefix_drop_lt (by decide) hk.1
  have hindex : nsAdd k 9 = k + 9 := nsAdd_of_lt (by omega)
  have hrest : (s.val.drop (k + 9)).length = s.val.length - (k + 9) := List.length_drop
  have hwrite : writeTorrentwithMagnet s = substringWithRange s.val (k + 9)
      (rangeOfString "&dn=".toList (s.val.drop (k + 9))) := by
    rw [writeTorrentwithMagnet, hrange, hindex, substringFromIndex, if_pos hle]
    rfl
  rw [hwrite, substringWithRange]
  -- the second marker is looked for behind the first; NSNotFound is behind every end
  rcases rangeOfString_cases "&dn=".toList (s.val.drop (k + 9)) (by decide) with
    hj | ⟨hword, hnone⟩
  · have hj' := prefix_drop_lt (by decide) hj.1
    rw [if_pos ⟨hle, by omega⟩]
    constructor
    · intro h
      exact ⟨_, hj, (Except.ok.inj h).symm⟩
    · rintro ⟨j, hfirst, rfl⟩
      rw [hfirst.unique hj]
  · have hbehind : ¬ nsNotFound ≤ s.val.length - (k + 9) := by
      unfold nsNotFound
      omega
    rw [hword, if_neg fun h => hbehind h.2]
    constructor
    · intro h
      cases h
    · rintro ⟨j, hfirst, -⟩
      exact absurd hfirst.1 (hnone j)

/-- **What `writeTorrentwithMagnet` asks for**: the text between the two markers. It raises an
exception where one of them is missing. -/
theorem writeTorrentwithMagnet_iff {s : NSString} {word : Text} :
    writeTorrentwithMagnet s = .ok word ↔ Between s.val word := by
  have hlength : s.val.length < 2 ^ 63 - 1 := s.property
  rcases rangeOfString_cases "urn:btih:".toList s.val (by decide) with
    hfirst | ⟨hhashtag, hnone⟩
  · rw [write_of_first hfirst rfl]
    constructor
    · rintro ⟨j, hj, hword⟩
      exact ⟨_, j, hfirst, hj, hword⟩
    · rintro ⟨k, j, hk, hj, hword⟩
      obtain rfl := hk.unique hfirst
      exact ⟨j, hj, hword⟩
  · -- the index is behind every string's end
    have hindex : ¬ nsAdd (rangeOfString "urn:btih:".toList s.val) 9 ≤ s.val.length := by
      rw [hhashtag]
      unfold nsAdd nsNotFound
      omega
    constructor
    · intro hword
      rw [writeTorrentwithMagnet, substringFromIndex, if_neg hindex] at hword
      cases hword
    · rintro ⟨k, -, hk, -⟩
      exact absurd hk.1 (hnone k)

/-! ## The strings that are imported as the parser understands them -/

/-- The condition on a string of the pasteboard that is forwarded: the word between the first
`urn:btih:` and the next `&dn=` exists, somewhere in the string an info-hash is named, and where
every `xt` parameter of a `magnet:?` link is well formed, the word stands for the info-hash of
the last one that names any. -/
def Importable (s : Text) : Prop :=
  ∃ word, Between s word ∧ HasBtih s ∧
    ((utf8 s).take 8 = "magnet:?".toList →
      (∀ q ∈ linkParameters (utf8 s), ∃ h?, infoHash? q = .ok h?) →
      ∀ ih, lastHash (linkParameters (utf8 s)) = some ih → IsBtih word ih)

/-- **The import agrees with the parser** about exactly the strings that meet the condition,
whatever the order of their parameters. -/
theorem importAgrees_iff (parseEndpoint : Text → Option Text) (content : Option NSString) :
    ImportAgrees parseEndpoint content ↔
      ∀ s, content = some s → isMagnet s.val = true → Importable s.val := by
  have hforwards : ∀ s, sceneWillEnterForeground content = some s ↔
      content = some s ∧ isMagnet s.val = true := by
    intro s
    rw [sceneWillEnterForeground, Option.filter_eq_some_iff]
  constructor
  · intro hagrees s hcontent hmagnet
    obtain ⟨⟨word, hword⟩, haccepted, hrequest⟩ := hagrees s ((hforwards s).mpr ⟨hcontent, hmagnet⟩)
    refine ⟨word, writeTorrentwithMagnet_iff.mp hword, ?_, fun hscheme hok ih hlast => ?_⟩
    · by_contra hno
      exact hrequest hno word hword
    · obtain ⟨p, hp, rfl⟩ := parseMagnetUri_iff.mpr ⟨hscheme, hok, hlast⟩
      obtain ⟨word', hword', hbtih⟩ := haccepted p hp
      obtain rfl : word = word' := Except.ok.inj (hword.symm.trans hword')
      exact hbtih
  · intro hcondition s hs
    obtain ⟨hcontent, hmagnet⟩ := (hforwards s).mp hs
    obtain ⟨word, hbetween, hhas, hagrees⟩ := hcondition s hcontent hmagnet
    have hword := writeTorrentwithMagnet_iff.mpr hbetween
    refine ⟨⟨word, hword⟩, fun p hp => ⟨word, hword, ?_⟩, fun hno => absurd hhas hno⟩
    obtain ⟨hscheme, hok, hlast⟩ := parseMagnetUri_iff.mp ⟨p, hp, rfl⟩
    exact hagrees hscheme hok _ hlast

/-- A link that names nothing but its info-hash. -/
def namelessLink : Text :=
  "magnet:?xt=urn:btih:0123456789abcdef0123456789abcdef01234567".toList

/-- The parser accepts it, and the import raises an exception. -/
theorem not_importAgrees_nameless :
    ¬ ∀ (parseEndpoint : Text → Option Text) (content : Option NSString),
      ImportAgrees parseEndpoint content := by
  intro hall
  let s : NSString := ⟨namelessLink, by decide⟩
  have hforwards : sceneWillEnterForeground (some s) = some s := by decide +kernel
  have hraises : writeTorrentwithMagnet s = .error .outOfBounds := by decide +kernel
  obtain ⟨⟨word, hword⟩, -⟩ := hall (fun _ => none) (some s) s hforwards
  rw [hraises] at hword
  cases hword

/-- With a name behind the info-hash, the link meets the condition. -/
example : Importable (namelessLink ++ "&dn=film".toList) := by
  let word : Text := "0123456789abcdef0123456789abcdef01234567".toList
  have hbetween : Between (namelessLink ++ "&dn=film".toList) word := by
    refine ⟨11, 40, ?_⟩
    unfold FirstAt
    decide +kernel
  have hbtih : IsBtih word (fromHex word).1 := by decide +kernel
  have hhas : HasBtih (namelessLink ++ "&dn=film".toList) := by
    refine ⟨11, (fromHex word).1, ?_⟩
    decide +kernel
  have hlast : lastHash (linkParameters (utf8 (namelessLink ++ "&dn=film".toList))) =
      some (fromHex word).1 := by decide +kernel
  refine ⟨word, hbetween, hhas, fun _ _ ih hih => ?_⟩
  rw [hlast] at hih
  rw [← Option.some.inj hih]
  exact hbtih

end BtDownloader
