import BtDownloader.Client.Announce
import BtDownloader.Client.ChosenPieces

set_option autoImplicit false

/-! # Fast-forward

`fastForwardTorrentForRange` answers `YES` in the round of the last piece of the window, and clips
the window only where it ends behind piece `num_pieces`. It makes a round for each torrent of the
session until one answers `YES`, and what the last round leaves is what the call leaves.

* `answersRange_iff`: at which positions it answers for the pieces that are there.
-/

namespace BtDownloader

open Program

variable {m m' : Machine} {env : Env} {h : Nat} {t : Torrent} {md : Metadata} {i : Int}
  {fe : FileEntry} {location length : Nat}

/-! ## The rounds -/

/-- `have_piece` of torrent `h`. -/
def Metadata.has (env : Env) (h : Nat) (md : Metadata) (p : Int) : Bool :=
  decide (0 ≤ p ∧ p < md.val.numPieces) && env.downloaded h p.toNat

/-- A round of a fast-forward: it starts at piece `first` of torrent `handle`. -/
structure Round where
  handle : Nat
  md : Metadata
  first : Int
deriving DecidableEq

namespace Round

def has (env : Env) (round : Round) : Int → Bool := round.md.has env round.handle

def numPieces (round : Round) : Nat := round.md.val.numPieces

/-- The answer of the round. -/
def hits (env : Env) (minPieces : Int) (round : Round) : Bool :=
  let last := lastSought round.first minPieces round.numPieces
  decide (round.first ≤ last) &&
    (piecesFrom round.first (last - round.first + 1).toNat).all (round.has env)

end Round

/-- The globals after `selectedFileIndex`, or else a choice made now, named file `i`. -/
def Globals.named (ti : TorrentInfo) (i : Int) (g : Globals) : Globals :=
  if g.selectedFileIndex ≠ -1 then g
  else if g.shouldUserSelectFiles then
    { g with shouldUserSelectFiles := false, selectedFileIndex := i }
  else if 1 < ti.numFiles then { g with selectedFileIndex := i }
  else g

/-- The rounds of a fast-forward over the torrents `ts`. There are none to tell of where the
metadata of a torrent is not there when it is asked, or no file of it is named. -/
def rounds (env : Env) (location length : Nat) : List Torrent → Machine → Option (List Round)
  | [], _ => some []
  | t :: ts, m => do
      let md ← t.info
      let i ← m.fileIndex? md.val
      let round := ⟨t.handle, md, (md.val.mapFile i.toNat location length).piece⟩
      if i < 0 then none
      else if round.hits env m.globals.minPieces then some [round]
      else
        let rest ← rounds env location length ts { m with globals := m.globals.named md.val i }
        some (round :: rest)

/-- The rounds of a fast-forward, in the order of `get_torrents`. -/
def Machine.rounds? (env : Env) (location length : Nat) (m : Machine) : Option (List Round) :=
  rounds env location length m.streamer.session.torrents m

/-! ## What is claimed -/

/-- The pieces that a loop asks for: it stops at the first one that is missing. -/
def asked (has : Int → Bool) : List Int → List Int
  | [] => []
  | p :: ps => p :: if has p then asked has ps else []

/-- The pieces that a round asks for which starts at piece `first` of a torrent of `n` pieces. -/
def askedFrom (has : Int → Bool) (first minPieces : Int) (n : Nat) : List Int :=
  asked has (piecesFrom first (lastSought first minPieces n - first + 1).toNat)

/-- The piece of the first byte of the range at `location` of file `i`. -/
def TorrentInfo.pieceAt (ti : TorrentInfo) (i location : Nat) : Nat :=
  (ti.fileOffset i + location) / ti.pieceLength

/-- The range lies inside the file. -/
def FileEntry.Contains (fe : FileEntry) (location length : Nat) : Prop :=
  location < fe.size ∧ location + length ≤ fe.size

/-- The last of the `max(MIN_PIECES, 1)` pieces from `first` on, as far as the torrent goes. -/
def lastWanted (first minPieces : Int) (n : Nat) : Int := min (first + max minPieces 1 - 1) (n - 1)

/-- The answer `r` for the pieces from `first` to `last`: `YES` exactly where they are all there,
else they are required and no piece is left to continue at. -/
structure Answered (has : Int → Bool) (first last : Int) (r : Bool) (m' : Machine) : Prop where
  yes_iff : r = true ↔ ∀ p, first ≤ p → p ≤ last → has p = true
  no : r = false → m'.streamer.requiredPieces = piecesFrom first (last - first + 1).toNat ∧
    m'.streamer.firstPiece = -1

/-- Fast-forward answers for the pieces of torrent `h` from the first piece of the range on, and
asks no torrent for a piece that it does not have by its number. -/
def Machine.AnswersRange (env : Env) (location length h : Nat) (md : Metadata) (i : Int)
    (m : Machine) : Prop :=
  let first : Int := md.val.pieceAt i.toNat location
  ∃ r m' made, fastForwardTorrentForRange env location length m = .ok r m' ∧
    m.rounds? env location length = some made ∧
    Answered (md.has env h) first (lastWanted first m.globals.minPieces md.val.numPieces) r m' ∧
    ∀ round ∈ made, ∀ p ∈
      askedFrom (round.has env) round.first m.globals.minPieces round.numPieces,
      p < round.numPieces

/-! ## The condition -/

/-- The window ends at piece `n`, which the torrent does not have, and the pieces before are all
there. -/
def EndsBehind (has : Int → Bool) (first minPieces : Int) (n : Nat) : Prop :=
  first + minPieces - 1 = n ∧ ∀ p, first ≤ p → p < n → has p = true

/-- The window has a piece, and all of its pieces are there. -/
def WindowThere (has : Int → Bool) (first minPieces : Int) (n : Nat) : Prop :=
  first < n ∧ ∀ p, first ≤ p → p ≤ lastWanted first minPieces n → has p = true

/-- **The condition.** `MIN_PIECES` is not `0`, a file of every torrent that is asked is named, no
window ends at piece `num_pieces` with all pieces before it there, and the torrent of the last
round answers as torrent `h` does: its window is there where that of `h` is, and has else the same
pieces. -/
structure Machine.Answerable (env : Env) (location length h : Nat) (md : Metadata) (first : Int)
    (made : List Round) (m : Machine) : Prop where
  rounds : m.rounds? env location length = some made
  minPieces : 1 ≤ m.globals.minPieces
  clipped : ∀ round ∈ made,
    ¬ EndsBehind (round.has env) round.first m.globals.minPieces round.numPieces
  there : ∀ last ∈ made.getLast?,
    (WindowThere (last.has env) last.first m.globals.minPieces last.numPieces ↔
      WindowThere (md.has env h) first m.globals.minPieces md.val.numPieces)
  missing : ∀ last ∈ made.getLast?,
    ¬ WindowThere (md.has env h) first m.globals.minPieces md.val.numPieces →
      windowFrom last.first m.globals.minPieces.toNat last.numPieces =
        windowFrom first m.globals.minPieces.toNat md.val.numPieces

/-! ## A round -/

theorem mapFile_inside (hfe : md.val.fileAt i = some fe) (hlt : location < fe.size) :
    (md.val.mapFile i.toNat location length).piece = md.val.pieceAt i.toNat location := by
  have hi := TorrentInfo.lt_numFiles_of_fileAt hfe
  have hend := TorrentInfo.fileOffset_add_fileSize_le hi
  rw [TorrentInfo.fileSize_of_fileAt hfe] at hend
  have hcast : (location : Int) + md.val.fileOffset i.toNat =
      ((md.val.fileOffset i.toNat + location : Nat) : Int) := by omega
  rw [TorrentInfo.mapFile_of_lt hi (by omega), hcast]
  rfl

theorem pieceAt_lt (hfe : md.val.fileAt i = some fe) (hlt : location < fe.size) :
    md.val.pieceAt i.toNat location < md.val.numPieces := by
  have hend := TorrentInfo.fileOffset_add_fileSize_le (TorrentInfo.lt_numFiles_of_fileAt hfe)
  rw [TorrentInfo.fileSize_of_fileAt hfe] at hend
  exact Extents.div_lt_blocks md.pieceLength_pos (by omega)

theorem Chooses.named {g g' : Globals} {block? : Option SelectionBlock} {ti : TorrentInfo}
    {es : List Effect} (hchooses : Chooses g block? (some ti) i g' es) : g' = g.named ti i := by
  unfold Globals.named
  cases hchooses with
  | current hsel => rw [if_pos hsel]
  | selects hsel hselects =>
      rw [if_neg (not_not.mpr hsel)]
      cases hselects with
      | earlier _ hother => exact absurd hsel hother
      | asked ti' block hflag _ hti _ => rw [if_pos hflag]
      | largest ti' hflag hti hfiles =>
          obtain rfl := Option.some.inj hti
          rw [hflag, if_neg Bool.false_ne_true, if_pos hfiles]
      | only ti' hflag hti hfiles =>
          obtain rfl := Option.some.inj hti
          rw [hflag, if_neg Bool.false_ne_true, if_neg hfiles]

theorem returns_seek (ht : m.streamer.session.find? h = some t) (hmd : t.info = some md)
    (hi : m.fileIndex? md.val = some i) (hindex : 0 ≤ i) :
    Returns (seek env location length h) m := by
  refine Returns.bind ⟨_, m, torrentFile_eq_ok.mpr ⟨t, ht, rfl, rfl⟩⟩ fun info m₁ h₁ => ?_
  obtain ⟨t₁, ht₁, rfl, hm₁⟩ := torrentFile_eq_ok.mp h₁
  obtain rfl := Option.some.inj (ht₁.symm.trans ht)
  refine Returns.bind ⟨md, m₁, orFault_eq_ok.mpr ⟨hmd, rfl⟩⟩ fun md' m₂ h₂ => ?_
  obtain ⟨hmd', hm₂⟩ := orFault_eq_ok.mp h₂
  obtain rfl := Option.some.inj (hmd'.symm.trans hmd)
  rw [hm₂, hm₁]
  -- a file is named, and its index is not negative, as map_file asks
  obtain ⟨m₃, h₃⟩ := returns_selectedFileIndexOrLargest ht hmd hi
  refine Returns.bind ⟨i, m₃, h₃⟩ fun i' m₃' h₃' => ?_
  obtain ⟨rfl, rfl⟩ := EStateM.Result.ok.inj (h₃.symm.trans h₃')
  obtain ⟨es, -, hs₃⟩ := selectedFileIndexOrLargest_ok h₃ ht
  refine Returns.bind ⟨(), _, rfl⟩ fun _ m₄ h₄ => ?_
  replace h₄ := emit_eq_ok.mp h₄
  refine Returns.bind ⟨_, m₄, mapFile_eq_ok.mpr ⟨hindex, rfl, rfl⟩⟩ fun request m₅ h₅ => ?_
  obtain ⟨-, rfl, hm₅⟩ := mapFile_eq_ok.mp h₅
  refine Returns.bind ⟨_, _, rfl⟩ fun min m₆ h₆ => ?_
  obtain ⟨-, hm₆⟩ := getMinPieces_eq_ok.mp h₆
  refine Returns.bind ⟨(), _, rfl⟩ fun _ m₇ h₇ => ?_
  replace h₇ := modifies_eq_ok.mp h₇
  have ht₇ : m₇.streamer.session.find? h = some t₁ := by
    rw [h₇, hm₆, hm₅, h₄, hs₃]
    exact ht
  exact ⟨_, m₇, haveThrough_eq ht₇ fun _ => by omega⟩

/-- What a round leaves. -/
structure Rounded (env : Env) (round : Round) (r : Bool) (m m' : Machine) : Prop where
  answer : r = round.hits env m.globals.minPieces
  miss : r = false →
    m'.streamer.requiredPieces =
      windowFrom round.first m.globals.minPieces.toNat round.numPieces ∧
    m'.streamer.firstPiece = -1

theorem Torrent.has_eq (hmd : t.info = some md) : t.has env = md.has env t.handle := by
  funext p
  rw [Torrent.has, hmd]
  rfl

/-- **What a round leaves**: it names a file of its torrent, and answers for that. -/
theorem rounded_of_round {r : Bool}
    (hx : fastForwardTorrent env location length h m = .ok r m') :
    ∃ md i, Knows h md m ∧ m.fileIndex? md.val = some i ∧ 0 ≤ i ∧
      Rounded env ⟨h, md, (md.val.mapFile i.toNat location length).piece⟩ r m m' ∧
      m'.globals = m.globals.named md.val i ∧
      m'.streamer.selectionBlock = m.streamer.selectionBlock := by
  rw [fastForwardTorrent_eq] at hx
  obtain ⟨there, m₁, hseek, hrest⟩ := bind_eq_ok.mp hx
  obtain ⟨t, md, i, es, ht, hmd, hchooses, hi, hthere, hs₁⟩ := seek_ok hseek
  -- the answer is about MIN_PIECES pieces from the one that the range begins in
  have hhits : there = Round.hits env m.globals.minPieces
      ⟨h, md, (md.val.mapFile i.toNat location length).piece⟩ := by
    rw [hchooses.minPieces] at hthere
    rw [hthere, Torrent.hasThrough, Torrent.hasAll, Torrent.has_eq hmd, Session.find?_handle ht]
    rfl
  have hpiece : 0 ≤ (md.val.mapFile i.toNat location length).piece :=
    (TorrentInfo.mapFile_piece_bounds md.property i.toNat (Int.natCast_nonneg location)).1
  refine ⟨md, i, ⟨t, ht, hmd⟩, hchooses.fileIndex, hi, ?_⟩
  rcases ite_eq_ok.mp hrest with ⟨htrue, hrest⟩ | ⟨hfalse, hrest⟩
  · obtain ⟨rfl, rfl⟩ := pure_eq_ok.mp hrest
    refine ⟨⟨htrue.symm.trans hhits, fun hno => by cases hno⟩, hchooses.named, ?_⟩
    rw [hs₁]
    rfl
  · -- the window moves to the piece that the round started at
    obtain ⟨_, m₂, h₂, hrest⟩ := bind_eq_ok.mp hrest
    replace h₂ := modifies_eq_ok.mp h₂
    obtain ⟨_, m₃, hnext, hrest⟩ := bind_eq_ok.mp hrest
    obtain ⟨rfl, rfl⟩ := pure_eq_ok.mp hrest
    have hfirst₂ : m₂.streamer.firstPiece = (md.val.mapFile i.toNat location length).piece := by
      rw [h₂, hs₁]
      rfl
    have hknows₂ : Knows h md m₂ := by
      unfold Knows
      rw [h₂, hs₁]
      exact ⟨t, ht, hmd⟩
    have hnext₂ : m₂.nextPiece? = some (md.val.mapFile i.toNat location length).piece := by
      rw [Machine.nextPiece?, hfirst₂, if_pos (by omega)]
    have hcontinued := continued_of_next hknows₂ hnext₂ hnext
    have hrequired := hcontinued.requiredPieces
    rw [show m₂.globals.minPieces = m.globals.minPieces by rw [h₂, hchooses.minPieces]] at hrequired
    obtain ⟨next, t₂, ps, -, -, -, -, hg₃, hs₃⟩ := prioritizeNextPieces_ok hnext
    refine ⟨⟨?_, fun _ => ⟨hrequired, hcontinued.firstPiece⟩⟩, ?_, ?_⟩
    · rw [← hhits]
      exact (by simpa using hfalse : there = false).symm
    · rw [hg₃, h₂]
      exact hchooses.named
    · rw [hs₃, h₂, hs₁]
      rfl

/-- **A round returns** wherever a file of the torrent is named. -/
theorem returns_round (hs : m.streamer.Sound) (hknows : Knows h md m)
    (hi : m.fileIndex? md.val = some i) (hindex : 0 ≤ i) :
    Returns (fastForwardTorrent env location length h) m := by
  obtain ⟨t, ht, hmd⟩ := hknows
  rw [fastForwardTorrent_eq]
  refine Returns.bind (returns_seek ht hmd hi hindex) fun there m₁ hseek => ?_
  obtain ⟨t', md', i', es, ht', hmd', -, -, -, hs₁⟩ := seek_ok hseek
  obtain rfl := Option.some.inj (ht'.symm.trans ht)
  obtain rfl := Option.some.inj (hmd'.symm.trans hmd)
  refine Returns.ite (fun _ => Returns.pure _ _) fun _ => ?_
  refine Returns.bind ⟨(), _, rfl⟩ fun _ m₂ h₂ => ?_
  replace h₂ := modifies_eq_ok.mp h₂
  -- the window starts at a piece of the torrent, which is never -1
  have hpiece : 0 ≤ (md'.val.mapFile i'.toNat location length).piece :=
    (TorrentInfo.mapFile_piece_bounds md'.property i'.toNat (Int.natCast_nonneg location)).1
  have hsession : m₂.streamer.session = m.streamer.session := by
    rw [h₂, hs₁]
    rfl
  have hfirst₂ : m₂.streamer.firstPiece = (md'.val.mapFile i'.toNat location length).piece := by
    rw [h₂, hs₁]
    rfl
  have hnext₂ : m₂.nextPiece? = some (md'.val.mapFile i'.toNat location length).piece := by
    rw [Machine.nextPiece?, hfirst₂, if_pos (by omega)]
  have hsound₂ : m₂.streamer.Sound := hs.of_eq hsession (by rw [h₂, hs₁]; rfl)
  refine Returns.bind (returns_prioritizeNextPieces env hsound₂ ⟨t', ?_, hmd'⟩ hnext₂ hpiece)
    fun _ m₃ _ => Returns.pure _ _
  rw [hsession]
  exact ht

/-! ## The whole call -/

/-- What is known of the torrents `ts` is the metadata that they have. -/
def Machine.Holds (ts : List Torrent) (m : Machine) : Prop :=
  ∀ t ∈ ts, ∀ md, t.info = some md ↔ Knows t.handle md m

theorem Machine.Holds.of_round {ts : List Torrent} {r : Bool} (hholds : m.Holds ts)
    (hs : m.streamer.Sound) (hx : fastForwardTorrent env location length h m = .ok r m') :
    m'.Holds ts := fun t ht md =>
  (hholds t ht md).trans ⟨fun hknows => knows_round hknows hx, fun hknows =>
    hknows.of_kept hs (keepsFiles_fastForwardTorrent hx)⟩

theorem holds_torrents (hs : m.streamer.Sound) : m.Holds m.streamer.session.torrents := by
  intro t ht md
  have hfind := hs.find?_of_mem ht
  constructor
  · intro hmd
    exact ⟨t, hfind, hmd⟩
  · rintro ⟨t', ht', hmd⟩
    obtain rfl := Option.some.inj (ht'.symm.trans hfind)
    exact hmd

/-- The rounds depend on the globals and on the block that selects. -/
theorem rounds_congr {ts : List Torrent} (hg : m'.globals = m.globals)
    (hblock : m'.streamer.selectionBlock = m.streamer.selectionBlock) :
    rounds env location length ts m' = rounds env location length ts m := by
  induction ts generalizing m m' with
  | nil => rfl
  | cons t ts ih =>
      have hindex : ∀ ti, m'.fileIndex? ti = m.fileIndex? ti := fun ti => by
        rw [Machine.fileIndex?, hg, choice?_congr hg hblock]
        rfl
      rw [rounds, rounds]
      refine bind_congr fun md => ?_
      rw [hindex, hg]
      refine bind_congr fun i => ?_
      let m₁ : Machine := { m with globals := m.globals.named md.val i }
      let m₂ : Machine := { m' with globals := m.globals.named md.val i }
      rw [@ih m₁ m₂ rfl hblock]

theorem rounds_cons_eq_some {ts : List Torrent} {made : List Round} :
    rounds env location length (t :: ts) m = some made ↔
      ∃ md i, t.info = some md ∧ m.fileIndex? md.val = some i ∧ 0 ≤ i ∧
        let round : Round := ⟨t.handle, md, (md.val.mapFile i.toNat location length).piece⟩
        ((round.hits env m.globals.minPieces = true ∧ made = [round]) ∨
          (round.hits env m.globals.minPieces = false ∧ ∃ rest,
            rounds env location length ts { m with globals := m.globals.named md.val i } =
              some rest ∧ made = round :: rest)) := by
  rw [rounds]
  simp only [Option.bind_eq_bind, Option.bind_eq_some_iff]
  refine exists_congr fun md => ?_
  rw [← exists_and_left]
  refine exists_congr fun i => and_congr_right fun _ => and_congr_right fun _ => ?_
  by_cases hi : i < 0
  · rw [if_pos hi]
    exact iff_of_false (by simp) fun hboth => absurd hboth.1 (by omega)
  · rw [if_neg hi, and_iff_right (by omega)]
    split
    · rename_i hhits
      simp [hhits, eq_comm]
    · rename_i hmisses
      rw [Option.bind_eq_some_iff]
      simp [hmisses, @eq_comm _ made]

/-- **A call that returns has made its rounds**, and leaves what the last one leaves. -/
theorem rounds_of_loop {ts : List Torrent} {r : Bool} (hs : m.streamer.Sound) (hholds : m.Holds ts)
    (hx : fastForwardLoop env location length (ts.map (·.handle)) m = .ok r m') :
    ∃ made, rounds env location length ts m = some made ∧ (ts ≠ [] → made ≠ []) ∧
      ∀ last ∈ made.getLast?, Rounded env last r m m' := by
  induction ts generalizing m with
  | nil => exact ⟨[], rfl, fun hne => absurd rfl hne, fun last hlast => by cases hlast⟩
  | cons t ts ih =>
      obtain ⟨there, m₁, hround, hrest⟩ := bind_eq_ok.mp hx
      obtain ⟨md, i, hknows, hi, hindex, hrounded, hg₁, hblock₁⟩ := rounded_of_round hround
      have hmd := (hholds t List.mem_cons_self md).mpr hknows
      cases there with
      | true =>
          obtain ⟨rfl, rfl⟩ := pure_eq_ok.mp hrest
          refine ⟨_, rounds_cons_eq_some.mpr ⟨md, i, hmd, hi, hindex, Or.inl
            ⟨hrounded.answer.symm, rfl⟩⟩, fun _ => List.cons_ne_nil _ _, fun last hlast => ?_⟩
          obtain rfl := Option.some.inj hlast
          exact hrounded
      | false =>
          have hholds₁ : m₁.Holds ts := fun t' ht' =>
            hholds.of_round hs hround t' (List.mem_cons_of_mem t ht')
          obtain ⟨made, hmade, hne, hlast⟩ :=
            ih (sound_fastForwardTorrent hs hround) hholds₁ hrest
          rw [rounds_congr (m := { m with globals := m.globals.named md.val i }) hg₁ hblock₁]
            at hmade
          refine ⟨_, rounds_cons_eq_some.mpr ⟨md, i, hmd, hi, hindex, Or.inr
            ⟨hrounded.answer.symm, made, hmade, rfl⟩⟩, fun _ => List.cons_ne_nil _ _,
            fun last hmem => ?_⟩
          cases made with
          | nil =>
              -- this round is the last one
              obtain rfl : ts = [] := by
                by_contra hnonempty
                exact hne hnonempty rfl
              obtain ⟨rfl, rfl⟩ := pure_eq_ok.mp hrest
              obtain rfl := Option.some.inj hmem
              exact hrounded
          | cons next made =>
              rw [List.getLast?_cons_cons] at hmem
              obtain ⟨hanswer, hmiss⟩ := hlast last hmem
              rw [minPieces_round hround] at hanswer hmiss
              exact ⟨hanswer, hmiss⟩

/-- **A call returns** wherever there are rounds for it to make. -/
theorem loop_of_rounds {ts : List Torrent} {made : List Round} (hs : m.streamer.Sound)
    (hholds : m.Holds ts) (hmade : rounds env location length ts m = some made) :
    Returns (fastForwardLoop env location length (ts.map (·.handle))) m := by
  induction ts generalizing m made with
  | nil => exact Returns.pure _ _
  | cons t ts ih =>
      obtain ⟨md, i, hmd, hi, hindex, hrest⟩ := rounds_cons_eq_some.mp hmade
      have hknows := (hholds t List.mem_cons_self md).mp hmd
      refine Returns.bind (returns_round hs hknows hi hindex) fun there m₁ hround => ?_
      obtain ⟨md', i', hknows', hi', -, hrounded, hg₁, hblock₁⟩ := rounded_of_round hround
      obtain rfl := Option.some.inj (((hholds t List.mem_cons_self md').mpr hknows').symm.trans hmd)
      obtain rfl := Option.some.inj (hi'.symm.trans hi)
      refine Returns.ite (fun _ => Returns.pure _ _) fun hmiss => ?_
      rcases hrest with ⟨hhits, -⟩ | ⟨-, rest, hrest, -⟩
      · exact absurd (hrounded.answer.trans hhits) hmiss
      · rw [← rounds_congr (m := { m with globals := m.globals.named md'.val i' }) hg₁ hblock₁]
          at hrest
        exact ih (sound_fastForwardTorrent hs hround) (fun t' ht' =>
          hholds.of_round hs hround t' (List.mem_cons_of_mem t ht')) hrest

/-! ## Which pieces are asked for -/

/-- Whatever is asked for is among the pieces. -/
theorem mem_of_asked {has : Int → Bool} {ps : List Int} {p : Int} (hp : p ∈ asked has ps) :
    p ∈ ps := by
  induction ps with
  | nil => cases hp
  | cons q ps ih =>
      rw [asked, List.mem_cons] at hp
      rcases hp with rfl | hp
      · exact List.mem_cons_self
      · split at hp
        · exact List.mem_cons_of_mem q (ih hp)
        · cases hp

/-- The last piece is asked for exactly where those before it are there. -/
theorem mem_asked_append {has : Int → Bool} {ps : List Int} {q : Int} (hq : q ∉ ps) :
    q ∈ asked has (ps ++ [q]) ↔ ∀ p ∈ ps, has p = true := by
  induction ps with
  | nil => simp [asked]
  | cons p ps ih =>
      rw [List.mem_cons, not_or] at hq
      rw [List.cons_append, asked, List.mem_cons, or_iff_right hq.1]
      cases hp : has p with
      | false => simp [hp]
      | true => simp [hp, ih hq.2]

/-- The pieces of a window are those up to the last one that is wanted. -/
theorem windowFrom_eq_lastWanted {first minPieces : Int} {n : Nat} (hmin : 1 ≤ minPieces) :
    windowFrom first minPieces.toNat n =
      piecesFrom first (lastWanted first minPieces n - first + 1).toNat := by
  rw [windowFrom_eq, lastWanted]
  congr 1
  omega

section Window

variable {has : Int → Bool} {n : Nat} {first minPieces : Int}

theorem lastSought_eq (hmin : 1 ≤ minPieces) (hend : first + minPieces - 1 ≠ n) :
    lastSought first minPieces n = lastWanted first minPieces n := by
  rw [lastSought, lastWanted]
  split
  · omega
  · omega

theorem lastSought_of_end (hend : first + minPieces - 1 = n) :
    lastSought first minPieces n = n := by
  rw [lastSought, if_neg (by omega), hend]

/-- **A round asks for pieces of the torrent only**, unless its window ends behind them and they
are all there. -/
theorem asked_lt_iff (hmin : 1 ≤ minPieces) :
    (∀ p ∈ askedFrom has first minPieces n, p < n) ↔ ¬ EndsBehind has first minPieces n := by
  by_cases hend : first + minPieces - 1 = n
  · -- piece `n` is the last one of the loop
    have hpieces : piecesFrom first ((n : Int) - first + 1).toNat =
        piecesFrom first ((n : Int) - first).toNat ++ [(n : Int)] := by
      have hsucc : ((n : Int) - first + 1).toNat = ((n : Int) - first).toNat + 1 := by omega
      have hat : first + (((n : Int) - first).toNat : Int) = n := by omega
      rw [hsucc, piecesFrom_add, hat]
      simp [piecesFrom]
    have hbefore : (n : Int) ∉ piecesFrom first ((n : Int) - first).toNat := by
      rw [mem_piecesFrom]
      omega
    rw [askedFrom, lastSought_of_end hend, hpieces, EndsBehind, and_iff_right hend]
    constructor
    · intro hlt hall
      have hasked : (n : Int) ∈ asked has (piecesFrom first ((n : Int) - first).toNat ++ [(n : Int)]) :=
        (mem_asked_append hbefore).mpr fun p hp => by
          rw [mem_piecesFrom] at hp
          exact hall p hp.1 (by omega)
      exact absurd (hlt n hasked) (lt_irrefl _)
    · intro hmissing p hp
      have hmem := mem_of_asked hp
      rw [List.mem_append, List.mem_singleton, mem_piecesFrom] at hmem
      rcases hmem with hmem | rfl
      · omega
      · refine absurd (fun q hq hlt => ?_) hmissing
        exact (mem_asked_append hbefore).mp hp q (mem_piecesFrom.mpr (by omega))
  · refine iff_of_true (fun p hp => ?_) fun h => hend h.1
    have hmem := mem_piecesFrom.mp (mem_of_asked hp)
    rw [lastSought_eq hmin hend, lastWanted] at hmem
    omega

end Window

/-- No torrent has a piece behind its last one. -/
theorem Metadata.has_lt {p : Int} (hp : md.has env h p = true) : p < md.val.numPieces := by
  rw [Metadata.has, Bool.and_eq_true, decide_eq_true_eq] at hp
  exact hp.1.2

namespace Round

variable {round : Round} {minPieces : Int}

theorem hits_eq_true : round.hits env minPieces = true ↔
    round.first ≤ lastSought round.first minPieces round.numPieces ∧
      ∀ p, round.first ≤ p → p ≤ lastSought round.first minPieces round.numPieces →
        round.has env p = true := by
  unfold hits
  rw [Bool.and_eq_true, decide_eq_true_eq, List.all_eq_true]
  refine and_congr_right fun hle => forall_congr' fun p => ?_
  rw [mem_piecesFrom, and_imp]
  have hlt : p < round.first + (lastSought round.first minPieces round.numPieces -
      round.first + 1).toNat ↔ p ≤ lastSought round.first minPieces round.numPieces := by omega
  rw [hlt]

/-- Without a window the answer is `NO`. -/
theorem misses_without_window (hmin : minPieces < 1) : round.hits env minPieces = false := by
  rw [← Bool.not_eq_true, hits_eq_true, lastSought]
  rintro ⟨hle, -⟩
  split at hle
  · omega
  · omega

/-- **Where the window is clipped**, the answer is `YES` if it is there. -/
theorem hits_iff (hmin : 1 ≤ minPieces)
    (hclipped : ¬ EndsBehind (round.has env) round.first minPieces round.numPieces) :
    round.hits env minPieces = true ↔
      WindowThere (round.has env) round.first minPieces round.numPieces := by
  rw [hits_eq_true, WindowThere]
  by_cases hend : round.first + minPieces - 1 = round.numPieces
  · -- the loop ends at a piece that is never there, and one of those before it is missing
    refine iff_of_false ?_ ?_
    · rw [lastSought_of_end hend]
      rintro ⟨hle, hall⟩
      exact absurd (Metadata.has_lt (hall round.numPieces hle le_rfl)) (lt_irrefl _)
    · rintro ⟨hlt, hall⟩
      refine hclipped ⟨hend, fun p hp hpn => hall p hp ?_⟩
      rw [lastWanted]
      omega
  · rw [lastSought_eq hmin hend]
    refine and_congr_left fun _ => ?_
    rw [lastWanted]
    omega

end Round


section Call

variable {made : List Round}

/-- The rounds of a call that returns are not none, where the session has a torrent. -/
theorem rounds_of_fastForward {r : Bool} (hs : m.streamer.Sound) (hknows : Knows h md m)
    (hx : fastForwardTorrentForRange env location length m = .ok r m')
    (hmade : m.rounds? env location length = some made) :
    ∃ last, made.getLast? = some last ∧ Rounded env last r m m' := by
  obtain ⟨made', hmade', hne, hlast⟩ := rounds_of_loop hs (holds_torrents hs) hx
  obtain rfl := Option.some.inj (hmade'.symm.trans hmade)
  obtain ⟨t, ht, -⟩ := hknows
  have hne' := hne (List.ne_nil_of_mem (Session.find?_mem ht))
  exact ⟨_, List.getLast?_eq_some_getLast hne', hlast _ (List.getLast?_eq_some_getLast hne')⟩

/-- A call that answers for the range of torrent `h` meets the condition. -/
theorem answerable_of_answered {r : Bool} {first : Int} (hs : m.streamer.Sound)
    (hknows : Knows h md m) (hfirst : first < md.val.numPieces)
    (hx : fastForwardTorrentForRange env location length m = .ok r m')
    (hmade : m.rounds? env location length = some made)
    (hanswered : Answered (md.has env h) first
      (lastWanted first m.globals.minPieces md.val.numPieces) r m')
    (hasks : ∀ round ∈ made, ∀ p ∈
      askedFrom (round.has env) round.first m.globals.minPieces round.numPieces,
      p < round.numPieces) :
    m.Answerable env location length h md first made := by
  obtain ⟨last, hlast, hrounded⟩ := rounds_of_fastForward hs hknows hx hmade
  -- without a window a round answers no and requires nothing, where a piece is wanted
  have hmin : 1 ≤ m.globals.minPieces := by
    by_contra hnone
    have hno : r = false := hrounded.answer.trans (Round.misses_without_window (by omega))
    have hrequired := (hrounded.miss hno).1
    have hone : (lastWanted first m.globals.minPieces md.val.numPieces - first + 1).toNat = 1 := by
      rw [lastWanted]
      omega
    rw [(hanswered.no hno).1, hone, Int.toNat_of_nonpos (by omega)] at hrequired
    cases hrequired
  have hclipped : ∀ round ∈ made,
      ¬ EndsBehind (round.has env) round.first m.globals.minPieces round.numPieces :=
    fun round hround => (asked_lt_iff hmin).mp (hasks round hround)
  -- both windows are there or neither is: the answer is the same
  have hthere : WindowThere (last.has env) last.first m.globals.minPieces last.numPieces ↔
      WindowThere (md.has env h) first m.globals.minPieces md.val.numPieces := by
    rw [← Round.hits_iff hmin (hclipped last (List.mem_of_getLast? hlast)), ← hrounded.answer,
      hanswered.yes_iff, WindowThere, and_iff_right hfirst]
  refine ⟨hmade, hmin, hclipped, fun last' hlast' => ?_, fun last' hlast' hmissing => ?_⟩
  · obtain rfl := Option.some.inj (hlast.symm.trans hlast')
    exact hthere
  · obtain rfl := Option.some.inj (hlast.symm.trans hlast')
    have hno : r = false := by
      rw [← Bool.not_eq_true, hrounded.answer,
        Round.hits_iff hmin (hclipped last (List.mem_of_getLast? hlast)), hthere]
      exact hmissing
    rw [← (hrounded.miss hno).1, (hanswered.no hno).1, windowFrom_eq_lastWanted hmin]

/-- A call that meets the condition answers for the range of torrent `h`. -/
theorem answered_of_answerable {r : Bool} {first : Int} (hs : m.streamer.Sound)
    (hknows : Knows h md m) (hfirst : first < md.val.numPieces)
    (hx : fastForwardTorrentForRange env location length m = .ok r m')
    (hcond : m.Answerable env location length h md first made) :
    Answered (md.has env h) first
      (lastWanted first m.globals.minPieces md.val.numPieces) r m' := by
  obtain ⟨hmade, hmin, hclipped, hthere, hmissing⟩ := hcond
  obtain ⟨last, hlast, hrounded⟩ := rounds_of_fastForward hs hknows hx hmade
  have hanswer : r = true ↔ WindowThere (md.has env h) first m.globals.minPieces
      md.val.numPieces := by
    rw [hrounded.answer, Round.hits_iff hmin (hclipped last (List.mem_of_getLast? hlast))]
    exact hthere last hlast
  refine ⟨?_, fun hno => ?_⟩
  · rw [hanswer, WindowThere, and_iff_right hfirst]
  · obtain ⟨hrequired, hfirstPiece⟩ := hrounded.miss hno
    refine ⟨?_, hfirstPiece⟩
    rw [hrequired, ← windowFrom_eq_lastWanted hmin]
    refine hmissing last hlast fun hwindow => ?_
    rw [hanswer.mpr hwindow] at hno
    cases hno

end Call

/-- Where the session has one torrent, the condition is about its window. -/
theorem answerable_iff_of_one (hone : m.streamer.session.torrents = [t]) (hmd : t.info = some md)
    (hi : m.fileIndex? md.val = some i) (hfe : md.val.fileAt i = some fe)
    (hlt : location < fe.size) :
    (∃ made, m.Answerable env location length t.handle md (md.val.pieceAt i.toNat location) made) ↔
      1 ≤ m.globals.minPieces ∧ ¬ EndsBehind (md.has env t.handle)
        (md.val.pieceAt i.toNat location) m.globals.minPieces md.val.numPieces := by
  -- with one torrent there is one round, and it is the run's
  have hrounds : m.rounds? env location length =
      some [⟨t.handle, md, md.val.pieceAt i.toNat location⟩] := by
    rw [Machine.rounds?, hone, rounds_cons_eq_some]
    refine ⟨md, i, hmd, hi, (TorrentInfo.fileAt_eq_some.mp hfe).1, ?_⟩
    rw [mapFile_inside hfe hlt]
    cases hhits : Round.hits env m.globals.minPieces
        ⟨t.handle, md, md.val.pieceAt i.toNat location⟩ with
    | true => exact Or.inl ⟨hhits, rfl⟩
    | false => exact Or.inr ⟨hhits, [], rfl, rfl⟩
  constructor
  · rintro ⟨made, hmade, hmin, hclipped, -⟩
    obtain rfl := Option.some.inj (hmade.symm.trans hrounds)
    exact ⟨hmin, hclipped ⟨t.handle, md, md.val.pieceAt i.toNat location⟩
      (List.mem_singleton_self _)⟩
  · rintro ⟨hmin, hclipped⟩
    refine ⟨[⟨t.handle, md, md.val.pieceAt i.toNat location⟩], hrounds, hmin,
      fun round hround => ?_, fun last hlast => ?_, fun last hlast _ => ?_⟩
    · obtain rfl := List.mem_singleton.mp hround
      exact hclipped
    · obtain rfl := Option.some.inj hlast
      exact Iff.rfl
    · obtain rfl := Option.some.inj hlast
      rfl

/-- **Fast-forward answers for the pieces that are there**, for every range inside a file of a
torrent of the session, exactly where the condition is met. -/
theorem answersRange_iff (hm : Reachable m) (hknows : Knows h md m)
    (hfe : md.val.fileAt i = some fe) (hrange : fe.Contains location length) :
    m.AnswersRange env location length h md i ↔ ∃ made,
      m.Answerable env location length h md (md.val.pieceAt i.toNat location) made := by
  have hfirst : (md.val.pieceAt i.toNat location : Int) < md.val.numPieces :=
    Int.ofNat_lt.mpr (pieceAt_lt hfe hrange.1)
  constructor
  · rintro ⟨r, m', made, hx, hmade, hanswered, hasks⟩
    exact ⟨made, answerable_of_answered hm.sound hknows hfirst hx hmade hanswered hasks⟩
  · rintro ⟨made, hcond⟩
    obtain ⟨r, m', hx⟩ := loop_of_rounds hm.sound (holds_torrents hm.sound) hcond.rounds
    exact ⟨r, m', made, hx, hcond.rounds,
      answered_of_answerable hm.sound hknows hfirst hx hcond, fun round hround =>
        (asked_lt_iff hcond.minPieces).mpr (hcond.clipped round hround)⟩

/-- A film of ten pieces that was cancelled and kept, and one of a hundred pieces, all of them
downloaded. The session has the longer film before the other. -/
def startFilms : List Event :=
  let short := Env.calm (Metadata.films 1 10 []) fun _ => true
  [.start short "a.torrent".toList none none none, .cancel short false,
    .start (.calm (Metadata.films 2 100 []) fun _ => true) "b.torrent".toList none none none]

/-- The last two pieces of the longer film are there, and the answer is `NO`. -/
theorem not_answersRange_lastPieces :
    ¬ ∀ (m : Machine) (env : Env) (h : Nat) (md : Metadata) (i : Int) (fe : FileEntry)
      (location length : Nat), Reachable m → Knows h md m → m.fileIndex? md.val = some i →
        md.val.fileAt i = some fe → fe.Contains location length →
          m.AnswersRange env location length h md i := by
  intro hall
  let md := Metadata.films 2 100 []
  let env := Env.calm md fun _ => true
  have hfinal : (finalState startFilms).map (fun m => ((m.streamer.session.find? 1).map (·.info),
      m.fileIndex? md.val, m.globals.minPieces)) = some (some (some md), some 0, 3) := by
    decide +kernel
  -- a program that stops on the answer YES returns
  have hmisses : ((finalState startFilms).bind (after (do
      let r ← fastForwardTorrentForRange env 98 2
      whenever (r = true) (throw .nullTorrentFile)))).isSome = true := by decide +kernel
  obtain ⟨m, hm, hmap⟩ := Option.map_eq_some_iff.mp hfinal
  simp only [Prod.mk.injEq] at hmap
  obtain ⟨htorrent, hi, hmin⟩ := hmap
  have hknows : Knows 1 md m := Option.map_eq_some_iff.mp htorrent
  obtain ⟨r, m', made, hx, -, hanswered, -⟩ := hall m env 1 md 0 ⟨"0.mp4".toList, 100, false⟩ 98 2
    (reachable_of_finalState hm) hknows hi (by decide) (by unfold FileEntry.Contains; decide)
  obtain rfl : r = false := by
    rw [hm, Option.bind_some] at hmisses
    obtain ⟨m₁, h₁⟩ := Option.isSome_iff_exists.mp hmisses
    have hends := after_eq_some.mp h₁
    rw [bind_of_ok hx] at hends
    rcases whenever_eq_ok.mp hends with ⟨-, hthrow⟩ | ⟨hno, -⟩
    · exact absurd hthrow throw_eq_ok
    · simpa using hno
  have hyes := hanswered.yes_iff.mpr fun p hfirst hlast => ?_
  · cases hyes
  · rw [hmin] at hlast
    have hpieces : md.val.numPieces = 100 := by decide
    have hat : md.val.pieceAt (Int.toNat 0) 98 = 98 := by decide
    rw [hat] at hfirst
    rw [hat, hpieces, lastWanted] at hlast
    rw [Metadata.has, Bool.and_eq_true, decide_eq_true_eq, hpieces]
    exact ⟨by omega, rfl⟩

/-- A range in the middle of the longer film. -/
theorem answersRange_film :
    let md := Metadata.films 2 100 []
    let env := Env.calm md fun _ => true
    ∃ m, finalState startFilms = some m ∧ m.streamer.session.torrents.map (·.handle) = [1, 0] ∧
      m.AnswersRange env 50 2 1 md 0 := by
  intro md env
  have hfinal : (finalState startFilms).map (fun m => (m.streamer.session.torrents.map (·.handle),
      (m.streamer.session.find? 1).map (·.info), m.globals.minPieces)) =
        some ([1, 0], some (some md), 3) := by decide +kernel
  have hrounds : (finalState startFilms).bind (·.rounds? env 50 2) = some [⟨1, md, 50⟩] := by
    decide +kernel
  obtain ⟨m, hm, hmap⟩ := Option.map_eq_some_iff.mp hfinal
  simp only [Prod.mk.injEq] at hmap
  obtain ⟨horder, htorrent, hmin⟩ := hmap
  rw [hm, Option.bind_some] at hrounds
  have hknows : Knows 1 md m := Option.map_eq_some_iff.mp htorrent
  have hfe : md.val.fileAt 0 = some ⟨"0.mp4".toList, 100, false⟩ := by decide
  have hat : (md.val.pieceAt (Int.toNat 0) 50 : Int) = 50 := by decide
  refine ⟨m, hm, horder, (answersRange_iff (reachable_of_finalState hm) hknows hfe ?_).mpr
    ⟨[⟨1, md, 50⟩], hrounds, ?_, ?_, ?_, ?_⟩⟩
  · unfold FileEntry.Contains
    decide
  · omega
  · intro round hround
    obtain rfl := List.mem_singleton.mp hround
    rintro ⟨hend, -⟩
    rw [hmin] at hend
    exact absurd hend (by decide)
  · intro last hlast
    obtain rfl := Option.some.inj hlast
    rw [hat]
    exact Iff.rfl
  · intro last hlast _
    obtain rfl := Option.some.inj hlast
    rw [hat]
    rfl

end BtDownloader
