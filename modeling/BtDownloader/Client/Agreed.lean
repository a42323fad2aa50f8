import BtDownloader.Client.ChosenPieces

set_option autoImplicit false

/-! # Required pieces and top pieces

The required pieces of the streamer and the tables of the torrent, as the pieces that are
downloaded by now leave them. A piece that finishes leaves the tables and stays required, so
that the two can differ without any call of the streamer; what a call can do wrong is to write
the record for one torrent while the run is about another.

* `agreed_iff`: in a run whose calls keep to the torrent, record and torrent agree exactly when
  no required piece has finished since it was asked for.
* `agreed_during`: the same as a condition on each call, before it is made.
-/

namespace BtDownloader

open Program

variable {m m' : Machine} {env : Env} {h : Nat}

/-! ## What a batch leaves -/

namespace Torrent

variable {downloaded asked now : Nat → Bool} {t : Torrent} {md : Metadata}

/-- The tables of a torrent that was asked for the pieces `required` when `asked` were
downloaded. A seed has none of its pieces asked for. -/
def Records (t : Torrent) (md : Metadata) (required : List Int) (asked : Nat → Bool) : Prop :=
  if md.isComplete asked then (∀ p, ¬ t.IsTop p) ∧ t.deadlines = []
  else t.Agrees md.val.numPieces required asked ∧ t.Quiet asked

/-- No required piece has finished since it was asked for, nor was or is the torrent complete,
unless none of its pieces is required. -/
def StaysRaised (md : Metadata) (required : List Int) (asked now : Nat → Bool) : Prop :=
  ∀ p < md.val.numPieces, (p : Int) ∈ required →
    md.isComplete asked = false ∧ md.isComplete now = false ∧ (now p = true → asked p = true)

instance (md : Metadata) (required : List Int) (asked now : Nat → Bool) :
    Decidable (StaysRaised md required asked now) :=
  inferInstanceAs (Decidable (∀ p < md.val.numPieces, (p : Int) ∈ required →
    md.isComplete asked = false ∧ md.isComplete now = false ∧ (now p = true → asked p = true)))

theorem isSeed_eq (hmd : t.info = some md) (downloaded : Nat → Bool) :
    t.isSeed downloaded = md.isComplete downloaded := by
  rw [isSeed, hmd, Option.any_some]

theorem not_isTop_of_default (hdefault : ∀ x ∈ t.piecePriorities, x = priorityDefault) (p : Nat) :
    ¬ t.IsTop p := by
  intro htop
  have hmax := hdefault _ (List.mem_of_getElem? htop)
  exact absurd hmax (by decide)

/-- Commands about priorities and deadlines leave a seed at its defaults. -/
theorem applyAll_seed (hseed : t.isSeed downloaded = true) {c : TorrentCommand}
    {cs : List TorrentCommand} (hcs : ∀ c' ∈ c :: cs, c'.isPriority = true) :
    (∀ x ∈ (t.applyAll downloaded (c :: cs)).piecePriorities, x = priorityDefault) ∧
      (t.applyAll downloaded (c :: cs)).deadlines = [] := by
  induction cs generalizing t c with
  | nil =>
      obtain ⟨hprio, hdead⟩ := apply_seed hseed (hcs c List.mem_cons_self)
      rw [applyAll_singleton, hprio]
      refine ⟨fun x hx => ?_, hdead⟩
      obtain ⟨y, -, rfl⟩ := List.mem_map.mp hx
      rfl
  | cons c' cs ih =>
      rw [applyAll_cons]
      exact ih ((apply_isSeed t c).trans hseed) fun c'' hc'' => hcs c'' (List.mem_cons_of_mem c hc'')

/-- After such commands no piece that has finished has a deadline. -/
theorem quiet_applyAll {c : TorrentCommand} {cs : List TorrentCommand}
    (hcs : ∀ c' ∈ c :: cs, c'.isPriority = true) :
    (t.applyAll downloaded (c :: cs)).Quiet downloaded := by
  induction cs generalizing t c with
  | nil =>
      rw [applyAll_singleton]
      exact quiet_apply downloaded t (hcs c List.mem_cons_self)
  | cons c' cs ih =>
      rw [applyAll_cons]
      exact ih fun c'' hc'' => hcs c'' (List.mem_cons_of_mem c hc'')

/-- A batch of commands about priorities and deadlines that leaves a torrent that is no seed in
agreement with what was asked for. -/
theorem records_applyAll {required : List Int} {c : TorrentCommand} {cs : List TorrentCommand}
    (hmd : t.info = some md) (hcs : ∀ c' ∈ c :: cs, c'.isPriority = true)
    (hagrees : t.isSeed downloaded = false →
      (t.applyAll downloaded (c :: cs)).Agrees md.val.numPieces required downloaded) :
    (t.applyAll downloaded (c :: cs)).Records md required downloaded := by
  rw [isSeed_eq hmd] at hagrees
  cases hcomplete : md.isComplete downloaded with
  | true =>
      have hseed : t.isSeed downloaded = true := (isSeed_eq hmd downloaded).trans hcomplete
      obtain ⟨hdefault, hdead⟩ := applyAll_seed hseed hcs
      rw [Records, if_pos hcomplete]
      exact ⟨not_isTop_of_default hdefault, hdead⟩
  | false =>
      rw [Records, hcomplete, if_neg Bool.false_ne_true]
      exact ⟨hagrees hcomplete, quiet_applyAll hcs⟩

theorem isPriority_window (w : List Int) (ps : List Nat) :
    ∀ c ∈ (.clearPieceDeadlines :: (deadlineCommands w ++ [.prioritizePieces ps]) :
      List TorrentCommand), c.isPriority = true := by
  intro c hc
  rw [List.mem_cons, List.mem_append, List.mem_singleton] at hc
  rcases hc with rfl | hc | rfl
  · rfl
  · obtain ⟨p, -, rfl⟩ := List.mem_map.mp hc
    rfl
  · rfl

theorem isPriority_select (n k : Nat) (i : Int) (required : List Int) :
    ∀ c ∈ selectCommands n k i required, c.isPriority = true := by
  intro c hc
  rcases List.mem_append.mp hc with hc | hc
  · simp only [List.mem_cons, List.not_mem_nil, or_false] at hc
    rcases hc with rfl | rfl | rfl <;> rfl
  · obtain ⟨p, -, hc⟩ := List.mem_flatMap.mp hc
    rcases List.mem_pair.mp hc with rfl | rfl <;> rfl

/-! ## What finished pieces leave -/

theorem getElem?_lowered (ps : List Nat) (pieces : List Int) (p : Nat) :
    (lowered ps pieces)[p]? =
      if p ∈ pieces.map Int.toNat then (ps[p]?).map fun _ => priorityLow else ps[p]? := by
  unfold lowered
  induction pieces generalizing ps with
  | nil => rfl
  | cons piece pieces ih =>
      rw [List.foldl_cons, ih, List.map_cons, List.getElem?_set]
      by_cases hp : piece.toNat = p
      · subst hp
        by_cases hlt : piece.toNat < ps.length
        · simp [hlt]
        · simp [hlt]
      · have hp' : ¬ p = piece.toNat := fun heq => hp heq.symm
        simp [hp, hp']

/-- A piece that is not downloaded, and one without a deadline, keeps its priority. -/
theorem isTop_settle (hseed : t.isSeed now = false) (hreal : ∀ p ∈ t.deadlines, 0 ≤ p) (p : Nat) :
    (t.settle now).IsTop p ↔ t.IsTop p ∧ ¬ ((p : Int) ∈ t.deadlines ∧ now p = true) := by
  have hmem : p ∈ (t.deadlines.filter fun q => now q.toNat).map Int.toNat ↔
      (p : Int) ∈ t.deadlines ∧ now p = true := by
    rw [List.mem_map]
    constructor
    · rintro ⟨q, hq, rfl⟩
      obtain ⟨hq, hthere⟩ := List.mem_filter.mp hq
      rw [Int.toNat_of_nonneg (hreal q hq)]
      exact ⟨hq, hthere⟩
    · rintro ⟨hp, hthere⟩
      exact ⟨p, List.mem_filter.mpr ⟨hp, by simpa using hthere⟩, Int.toNat_natCast p⟩
  unfold IsTop settle
  rw [hseed, if_neg Bool.false_ne_true, getElem?_lowered]
  by_cases hthere : (p : Int) ∈ t.deadlines ∧ now p = true
  · rw [if_pos (hmem.mpr hthere)]
    refine iff_of_false (fun heq => ?_) fun hboth => hboth.2 hthere
    obtain ⟨x, -, hx⟩ := Option.map_eq_some_iff.mp heq
    exact absurd hx (by decide)
  · rw [if_neg (mt hmem.mp hthere)]
    exact (and_iff_left hthere).symm

theorem mem_deadlines_settle (hseed : t.isSeed now = false) (p : Int) :
    p ∈ (t.settle now).deadlines ↔ p ∈ t.deadlines ∧ now p.toNat = false := by
  unfold settle
  rw [hseed, if_neg Bool.false_ne_true, List.mem_filter, Bool.not_eq_true']

/-- Empty tables agree with a record of no piece of the torrent. -/
theorem agrees_iff_of_empty {n : Nat} {required : List Int} (htop : ∀ p, ¬ t.IsTop p)
    (hdead : t.deadlines = []) :
    t.Agrees n required asked ↔ ∀ p < n, (p : Int) ∉ required := by
  constructor
  · intro hagrees p hp hmem
    exact htop p ((hagrees.top_iff p hp).mpr hmem)
  · intro hnone
    refine ⟨fun p hp => iff_of_false (htop p) (hnone p hp), fun p hp => ?_, fun p hp hmem => ?_⟩
    · rw [hdead] at hp
      cases hp
    · exact absurd hmem (hnone p hp)

/-- A torrent that was complete when it was asked, or is by now, has empty tables. -/
theorem empty_settle (hmd : t.info = some md) {required : List Int}
    (hrecords : t.Records md required asked)
    (hcomplete : md.isComplete asked = true ∨ md.isComplete now = true) :
    (∀ p, ¬ (t.settle now).IsTop p) ∧ (t.settle now).deadlines = [] := by
  cases hseed : t.isSeed now with
  | true =>
      obtain ⟨hprio, hdead⟩ := settle_seed hseed
      refine ⟨not_isTop_of_default fun x hx => ?_, hdead⟩
      rw [hprio] at hx
      obtain ⟨y, -, rfl⟩ := List.mem_map.mp hx
      rfl
  | false =>
      have hnow : md.isComplete now = false := (isSeed_eq hmd now).symm.trans hseed
      have hasked : md.isComplete asked = true := hcomplete.resolve_right (by simp [hnow])
      rw [Records, if_pos hasked] at hrecords
      obtain ⟨htop, hdead⟩ := hrecords
      have hquiet : t.Quiet now := by
        intro p hp
        rw [hdead] at hp
        cases hp
      rw [settle_of_quiet hseed hquiet]
      exact ⟨htop, hdead⟩

/-- **The tables now** agree with what was asked for exactly when no required piece has finished
since. -/
theorem agrees_settle_iff (hmd : t.info = some md) {required : List Int}
    (hrecords : t.Records md required asked) :
    (t.settle now).Agrees md.val.numPieces required asked ↔
      StaysRaised md required asked now := by
  by_cases hcomplete : md.isComplete asked = true ∨ md.isComplete now = true
  · obtain ⟨htop, hdead⟩ := empty_settle hmd hrecords hcomplete
    rw [agrees_iff_of_empty htop hdead]
    refine forall₂_congr fun p hp => forall_congr' fun hmem => iff_of_false id ?_
    rintro ⟨hasked, hnow, -⟩
    simp [hasked, hnow] at hcomplete
  · obtain ⟨hasked, hnow⟩ := not_or.mp hcomplete
    rw [Bool.not_eq_true] at hasked hnow
    rw [Records, hasked, if_neg Bool.false_ne_true] at hrecords
    obtain ⟨hagrees, hquiet⟩ := hrecords
    have hseed : t.isSeed now = false := (isSeed_eq hmd now).trans hnow
    have hreal : ∀ p ∈ t.deadlines, 0 ≤ p := fun p hp => (hagrees.asked p hp).1.1
    constructor
    · intro hsettled p hp hmem
      refine ⟨hasked, hnow, fun hthere => ?_⟩
      -- a required piece is still at the top, so it lost no deadline
      have htop := (hsettled.top_iff p hp).mpr hmem
      by_contra hmissing
      have hgiven := hagrees.given p hp hmem (by simpa using hmissing)
      exact ((isTop_settle hseed hreal p).mp htop).2 ⟨hgiven, hthere⟩
    · intro hstays
      refine ⟨fun p hp => ?_, fun p hp => ?_, fun p hp hmem hmissing => ?_⟩
      · rw [isTop_settle hseed hreal, hagrees.top_iff p hp]
        refine and_iff_left_of_imp fun hmem hlost => ?_
        have hthere := (hstays p hp hmem).2.2 hlost.2
        have hwas := hquiet p hlost.1
        rw [Int.toNat_natCast, hthere] at hwas
        cases hwas
      · exact hagrees.asked p ((mem_deadlines_settle hseed p).mp hp).1
      · rw [mem_deadlines_settle hseed]
        refine ⟨hagrees.given p hp hmem hmissing, ?_⟩
        rw [Int.toNat_natCast]
        cases hthere : now p with
        | false => rfl
        | true =>
            rw [(hstays p hp hmem).2.2 hthere] at hmissing
            cases hmissing

end Torrent

/-! ## The streamer and the torrent -/

/-- The required pieces agree with torrent `h`, which was asked for them when `asked` were
downloaded; `now` are those that are downloaded by now. -/
def Agreed (h : Nat) (m : Machine) (asked now : Nat → Bool) : Prop :=
  ∃ t md, m.streamer.session.find? h = some t ∧ t.info = some md ∧
    (t.settle now).Agrees md.val.numPieces m.streamer.requiredPieces asked

/-- The tables of torrent `h` are those of the required pieces, as they were asked for. -/
def Recorded (h : Nat) (m : Machine) (asked : Nat → Bool) : Prop :=
  ∃ t md, m.streamer.session.find? h = some t ∧ t.info = some md ∧
    t.Records md m.streamer.requiredPieces asked

/-- No required piece of torrent `h` has finished since it was asked for. -/
def Machine.StaysRaised (h : Nat) (asked now : Nat → Bool) (m : Machine) : Prop :=
  ∀ md ∈ m.metadata? h, Torrent.StaysRaised md m.streamer.requiredPieces asked now

instance (h : Nat) (asked now : Nat → Bool) (m : Machine) :
    Decidable (m.StaysRaised h asked now) :=
  inferInstanceAs (Decidable (∀ md ∈ m.metadata? h,
    Torrent.StaysRaised md m.streamer.requiredPieces asked now))

section Recorded

variable {asked now : Nat → Bool}

theorem Recorded.knows (hm : Recorded h m asked) : ∃ md, Knows h md m := by
  obtain ⟨t, md, ht, hmd, -⟩ := hm
  exact ⟨md, t, ht, hmd⟩

/-- What changes neither the required pieces nor the session keeps the record. -/
theorem Recorded.of_eq (hm : Recorded h m asked)
    (hsession : m'.streamer.session = m.streamer.session)
    (hrequired : m'.streamer.requiredPieces = m.streamer.requiredPieces) :
    Recorded h m' asked := by
  unfold Recorded
  rw [hsession, hrequired]
  exact hm

theorem Recorded.of_same (hm : Recorded h m asked)
    (hsame : m.streamer.SameRequests m'.streamer) : Recorded h m' asked := by
  unfold Recorded Session.find? at hm ⊢
  rwa [hsame.torrents, hsame.requiredPieces]

/-- Where record and tables are one, they agree now if no required piece has finished. -/
theorem Recorded.agreed_iff (hm : Recorded h m asked) :
    Agreed h m asked now ↔ m.StaysRaised h asked now := by
  obtain ⟨t, md, ht, hmd, hrecords⟩ := hm
  have hmetadata : m.metadata? h = some md := by
    rw [Machine.metadata?, ht, Option.bind_some, hmd]
  unfold Agreed Machine.StaysRaised
  constructor
  · rintro ⟨t', md', ht', hmd', hagrees⟩ md'' hmem
    obtain rfl := Option.some.inj (ht'.symm.trans ht)
    obtain rfl := Option.some.inj (hmd'.symm.trans hmd)
    obtain rfl := Option.some.inj (hmetadata.symm.trans hmem)
    exact (Torrent.agrees_settle_iff hmd hrecords).mp hagrees
  · intro hstays
    exact ⟨t, md, ht, hmd, (Torrent.agrees_settle_iff hmd hrecords).mpr (hstays md hmetadata)⟩

end Recorded

theorem recorded_prioritizeNextPieces {md : Metadata} {u : Unit} (hs : m.streamer.Sound)
    (hknows : Knows h md m) (hx : prioritizeNextPieces env h m = .ok u m') :
    Recorded h m' (env.downloaded h) := by
  obtain ⟨t, ht, hmd⟩ := hknows
  obtain ⟨next, t', ps, -, ht', -, hps, -, hs'⟩ := prioritizeNextPieces_ok hx
  obtain rfl : t' = t := Option.some.inj (ht'.symm.trans ht)
  have hsized := (hs.wanted t' (Session.find?_mem ht)).1
  have hsession := congrArg Streamer.session hs'
  refine ⟨_, md, find?_of_sent hsession ht, by rw [Torrent.applyAll_info, hmd], ?_⟩
  have hrequired := congrArg Streamer.requiredPieces hs'
  rw [hrequired, hps]
  exact Torrent.records_applyAll hmd (Torrent.isPriority_window _ _) fun hseed =>
    Torrent.agrees_window hmd hseed hsized _

theorem recorded_selectFile {u : Unit} (hs : m.streamer.Sound)
    (hx : selectFile env h m = .ok u m') : Recorded h m' (env.downloaded h) := by
  obtain ⟨t, md, i, g, es, fe, ht, hmd, -, -, -, hs'⟩ := selectFile_ok hx
  have hsized := (hs.wanted t (Session.find?_mem ht)).1
  have hsession := congrArg Streamer.session hs'
  refine ⟨_, md, find?_of_sent hsession ht, by rw [Torrent.applyAll_info, hmd], ?_⟩
  have hrequired := congrArg Streamer.requiredPieces hs'
  rw [hrequired]
  exact Torrent.records_applyAll hmd (Torrent.isPriority_select _ _ _ _) fun hseed =>
    Torrent.agrees_select hmd hseed hsized _ rfl

theorem recorded_metadataReceivedAlert {u : Unit} (hs : m.streamer.Sound)
    (hroom : ¬ env.LowSpace h) (hx : metadataReceivedAlert env h m = .ok u m') :
    Recorded h m' (env.downloaded h) := by
  obtain ⟨-, -, ⟨hlow, -⟩ | ⟨-, m₁, -, hs₁, hselect⟩⟩ := metadataReceivedAlert_ok hx
  · exact absurd hlow hroom
  · refine recorded_selectFile ?_ hselect
    rw [hs₁]
    exact hs.of_eq rfl rfl

/-! ## Fast-forwards -/

/-- A round that hits changes neither the required pieces nor the torrents. -/
theorem Recorded.hit {asked : Nat → Bool} {location length h' : Nat} (hm : Recorded h m asked)
    (hx : fastForwardTorrent env location length h' m = .ok true m') : Recorded h m' asked := by
  obtain ⟨t, md, i, g, es, last, -, -, -, -, ⟨-, -, hs'⟩ | ⟨hfalse, -⟩⟩ := fastForwardTorrent_ok hx
  · refine hm.of_eq ?_ ?_
    · rw [hs']
      rfl
    · rw [hs']
      rfl
  · cases hfalse

/-- A round that misses asks its torrent for a window. -/
theorem recorded_miss {location length : Nat} (hs : m.streamer.Sound)
    (hx : fastForwardTorrent env location length h m = .ok false m') :
    Recorded h m' (env.downloaded h) := by
  obtain ⟨t, md, i, g, es, last, ht, hmd, -, -, ⟨htrue, -⟩ | ⟨-, m₁, -, hs₁, hnext⟩⟩ :=
    fastForwardTorrent_ok hx
  · cases htrue
  · have hsession₁ : m₁.streamer.session = m.streamer.session := by
      rw [hs₁]
      rfl
    have hs₁' : m₁.streamer.Sound := by
      rw [hs₁]
      exact hs.of_eq rfl rfl
    exact recorded_prioritizeNextPieces hs₁' ⟨t, by rw [hsession₁]; exact ht, hmd⟩ hnext

/-- **A fast-forward** leaves the record that of the torrent of its last miss, and keeps the
record it finds where nothing misses. -/
theorem recorded_fastForwardLoop {location length : Nat} {hs : List Nat} {r : Bool}
    (hsound : m.streamer.Sound) (hx : fastForwardLoop env location length hs m = .ok r m') :
    (∀ next, lastWindow env location length hs m = some (h, next) →
      Recorded h m' (env.downloaded h)) ∧
    (lastWindow env location length hs m = none →
      ∀ asked, Recorded h m asked → Recorded h m' asked) := by
  induction hs generalizing m with
  | nil =>
      obtain ⟨-, rfl⟩ := pure_eq_ok.mp hx
      exact ⟨fun next hlast => (by cases hlast), fun _ _ hm => hm⟩
  | cons h' hs ih =>
      obtain ⟨there, m₁, hround, hrest⟩ := bind_eq_ok.mp hx
      have hsound₁ := sound_fastForwardTorrent hsound hround
      rw [lastWindow, hround]
      cases there with
      | true =>
          obtain ⟨-, rfl⟩ := pure_eq_ok.mp hrest
          exact ⟨fun next hlast => (by cases hlast), fun _ _ hm => hm.hit hround⟩
      | false =>
          obtain ⟨hlast, hnone⟩ := ih hsound₁ hrest
          dsimp only
          cases hlater : lastWindow env location length hs m₁ with
          | none =>
              -- this round is the last one that misses
              refine ⟨fun next heq => ?_, fun heq => by cases heq⟩
              obtain rfl : h' = h := congrArg Prod.fst (Option.some.inj heq)
              exact hnone hlater _ (recorded_miss hsound hround)
          | some later =>
              exact ⟨fun next heq => hlast next (hlater.trans heq), fun heq => by cases heq⟩

/-! ## Runs between metadata handling and cancel -/

namespace Call

/-- The call cancels, because the device has no room for the download. -/
def Cancels (m : Machine) : Call → Prop
  | .metadata env h => env.LowSpace h
  | .pieceFinished env h =>
      m.allPresent env h = true ∧ m.globals.minPieces = 0 ∧ env.LowSpace h
  | .nextPieces _ _ => False
  | .fastForward _ _ _ => False

/-- The torrent for whose pieces the call leaves `required_pieces`, if it asks for any. -/
def asks (m : Machine) : Call → Option Nat
  | .metadata _ h => some h
  | .pieceFinished env h => if m.allPresent env h then some h else none
  | .nextPieces _ h => some h
  | .fastForward env location length =>
      (lastWindow env location length (m.streamer.session.torrents.map (·.handle)) m).map (·.1)

/-- What was downloaded when torrent `h` was last asked for pieces: now, or as before. -/
def downloadedThen (c : Call) (h : Nat) (m : Machine) (before : Nat → Bool) : Nat → Bool :=
  if c.asks m = some h then c.answers.downloaded h else before

theorem downloadedThen_asked {c : Call} {before : Nat → Bool} (hasks : c.asks m = some h) :
    c.downloadedThen h m before = c.answers.downloaded h := if_pos hasks

theorem downloadedThen_kept {c : Call} {before : Nat → Bool} (hasks : c.asks m = none) :
    c.downloadedThen h m before = before := if_neg (by simp [hasks])

/-- The call leaves `required_pieces` for no other torrent than `h`. -/
def KeepsTo (h : Nat) (_ : Nat → Bool) (m : Machine) (c : Call) : Prop :=
  ∀ h' ∈ c.asks m, h' = h

/-- **The condition of a call** in a run of torrent `h`. A call that asks for pieces asks for
those of `h`, and `h` is not complete. When any other call is made, no required piece has
finished since it was asked for. -/
def Keeps (h : Nat) (asked : Nat → Bool) (m : Machine) (c : Call) : Prop :=
  if (c.asks m).isSome then
    c.asks m = some h ∧ ∀ md ∈ m.metadata? h, md.isComplete (c.answers.downloaded h) = false
  else m.StaysRaised h asked (c.answers.downloaded h)

instance (h : Nat) (asked : Nat → Bool) (m : Machine) (c : Call) :
    Decidable (c.Keeps h asked m) :=
  inferInstanceAs (Decidable (if (c.asks m).isSome then
    c.asks m = some h ∧ ∀ md ∈ m.metadata? h, md.isComplete (c.answers.downloaded h) = false
  else m.StaysRaised h asked (c.answers.downloaded h)))

theorem Keeps.keepsTo {asked : Nat → Bool} {c : Call} (hkeeps : c.Keeps h asked m) :
    c.KeepsTo h asked m := by
  intro h' hh'
  unfold Keeps at hkeeps
  rw [Option.mem_def] at hh'
  rw [hh', Option.isSome_some, if_pos rfl] at hkeeps
  exact Option.some.inj hkeeps.1

end Call

/-- The states between the handling of the metadata of torrent `h` and a cancel or the end,
with what was downloaded when `h` was last asked for pieces and at the last call. `C` is asked of
every call; in between anything can happen that changes neither the torrents nor the required
pieces. -/
inductive During (C : Nat → (Nat → Bool) → Machine → Call → Prop) (h : Nat) :
    Machine → (Nat → Bool) → (Nat → Bool) → Prop
  | handled {m m' : Machine} {env : Env} (hm : m.streamer.Sound) (hroom : ¬ env.LowSpace h)
      (hc : C h (env.downloaded h) m (.metadata env h))
      (hx : metadataReceivedAlert env h m = .ok () m') :
      During C h m' (env.downloaded h) (env.downloaded h)
  | called {m m' : Machine} {asked now : Nat → Bool} {c : Call} (hm : During C h m asked now)
      (hc : C h asked m c) (hgoes : ¬ c.Cancels m) (hx : c.perform m = .ok () m') :
      During C h m' (c.downloadedThen h m asked) (c.answers.downloaded h)
  | elsewhere {m m' : Machine} {asked now : Nat → Bool} (hm : During C h m asked now)
      (hsame : m.streamer.SameRequests m'.streamer) : During C h m' asked now

theorem sound_call {c : Call} {u : Unit} (hs : m.streamer.Sound) (hx : c.perform m = .ok u m') :
    m'.streamer.Sound := by
  cases c with
  | metadata env h => exact sound_metadataReceivedAlert hs hx
  | pieceFinished env h => exact sound_pieceFinishedAlert hs hx
  | nextPieces env h => exact sound_prioritizeNextPieces hs hx
  | fastForward env location length =>
      obtain ⟨r, m₁, hloop, hrest⟩ := bind_eq_ok.mp hx
      obtain ⟨-, rfl⟩ := pure_eq_ok.mp hrest
      obtain ⟨hs', m₂, hths, hloop⟩ := bind_eq_ok.mp hloop
      obtain ⟨rfl, rfl⟩ := gets_eq_ok.mp hths
      exact sound_fastForwardLoop hs hloop

theorem recorded_pieceFinishedAlert {asked : Nat → Bool} {h' : Nat} {u : Unit}
    (hs : m.streamer.Sound) (hm : Recorded h m asked)
    (hkeeps : (Call.pieceFinished env h').KeepsTo h asked m)
    (hgoes : ¬ (Call.pieceFinished env h').Cancels m)
    (hx : pieceFinishedAlert env h' m = .ok u m') :
    Recorded h m' ((Call.pieceFinished env h').downloadedThen h m asked) := by
  obtain ⟨-, n, m₁, hg₁, hs₁, ⟨hmissing, hg', hs'⟩ | ⟨hpresent, m₂, hnext, hagain⟩⟩ :=
    pieceFinishedAlert_ok hx
  -- a required piece is missing: nothing is asked for
  · rw [Call.downloadedThen_kept (by simp [Call.asks, hmissing])]
    refine hm.of_eq ?_ ?_
    · rw [hs', hs₁]
      rfl
    · rw [hs', hs₁]
      rfl
  · obtain rfl : h' = h := hkeeps h' (by simp [Call.asks, hpresent])
    rw [Call.downloadedThen_asked (by simp [Call.asks, hpresent])]
    show Recorded h' m' (env.downloaded h')
    have hs₁' : m₁.streamer.Sound := by
      rw [hs₁]
      exact hs.of_eq rfl rfl
    obtain ⟨md, hknows⟩ := hm.knows
    -- the window goes on from the state before, or from the file selected again
    rcases hagain with ⟨-, -, hs₂⟩ | ⟨hzero, m₃, hg₃, hs₃, hmeta⟩
    · have hknows₂ : Knows h' md m₂ := by
        unfold Knows
        rw [hs₂, hs₁]
        exact hknows
      refine recorded_prioritizeNextPieces ?_ hknows₂ hnext
      rw [hs₂]
      exact hs₁'
    · have hs₃' : m₃.streamer.Sound := by
        rw [hs₃]
        exact hs₁'
      have hroom : ¬ env.LowSpace h' := fun hlow => hgoes ⟨hpresent, hzero, hlow⟩
      obtain ⟨md', hknows'⟩ := (recorded_metadataReceivedAlert hs₃' hroom hmeta).knows
      exact recorded_prioritizeNextPieces (sound_metadataReceivedAlert hs₃' hmeta) hknows' hnext

/-- One call keeps the record, if it leaves `required_pieces` for no other torrent. -/
theorem recorded_call {asked : Nat → Bool} {c : Call} {u : Unit} (hs : m.streamer.Sound)
    (hm : Recorded h m asked) (hkeeps : c.KeepsTo h asked m) (hgoes : ¬ c.Cancels m)
    (hx : c.perform m = .ok u m') : Recorded h m' (c.downloadedThen h m asked) := by
  cases c with
  | metadata env h' =>
      obtain rfl : h' = h := hkeeps h' rfl
      rw [Call.downloadedThen_asked rfl]
      exact recorded_metadataReceivedAlert hs hgoes hx
  | pieceFinished env h' => exact recorded_pieceFinishedAlert hs hm hkeeps hgoes hx
  | nextPieces env h' =>
      obtain rfl : h' = h := hkeeps h' rfl
      rw [Call.downloadedThen_asked rfl]
      obtain ⟨md, hknows⟩ := hm.knows
      exact recorded_prioritizeNextPieces hs hknows hx
  | fastForward env location length =>
      obtain ⟨r, hloop⟩ := fastForward_ok hx
      obtain ⟨hsome, hnone⟩ := recorded_fastForwardLoop (h := h) hs hloop
      -- the last window that the rounds ask for is the one on record
      cases hlast : lastWindow env location length (m.streamer.session.torrents.map (·.handle)) m with
      | none =>
          rw [Call.downloadedThen_kept (by rw [Call.asks, hlast, Option.map_none])]
          exact hnone hlast _ hm
      | some last =>
          obtain ⟨h', next⟩ := last
          have hasks : (Call.fastForward env location length).asks m = some h' := by
            rw [Call.asks, hlast, Option.map_some]
          obtain rfl : h' = h := hkeeps h' hasks
          rw [Call.downloadedThen_asked hasks]
          exact hsome next hlast

section Runs

variable {C C' : Nat → (Nat → Bool) → Machine → Call → Prop} {asked now : Nat → Bool}

theorem During.sound (hm : During C h m asked now) : m.streamer.Sound := by
  induction hm with
  | handled hm hroom hc hx => exact sound_metadataReceivedAlert hm hx
  | called hm hc hgoes hx ih => exact sound_call ih hx
  | elsewhere hm hsame ih => exact ih.of_same hsame

theorem During.imp (hm : During C h m asked now)
    (himp : ∀ asked m c, C h asked m c → C' h asked m c) : During C' h m asked now := by
  induction hm with
  | handled hm hroom hc hx => exact .handled hm hroom (himp _ _ _ hc) hx
  | called hm hc hgoes hx ih => exact ih.called (himp _ _ _ hc) hgoes hx
  | elsewhere hm hsame ih => exact ih.elsewhere hsame

theorem recorded_during (hm : During Call.KeepsTo h m asked now) : Recorded h m asked := by
  induction hm with
  | handled hm hroom hc hx => exact recorded_metadataReceivedAlert hm hroom hx
  | called hm hc hgoes hx ih => exact recorded_call hm.sound ih hc hgoes hx
  | elsewhere hm hsame ih => exact ih.of_same hsame

/-- **In a run whose calls keep to the torrent**, record and torrent agree exactly when no
required piece has finished since it was asked for. -/
theorem agreed_iff (hm : During Call.KeepsTo h m asked now) :
    Agreed h m asked now ↔ m.StaysRaised h asked now := (recorded_during hm).agreed_iff

/-! ## The condition of a call -/

theorem mem_metadata?_iff {md : Metadata} : md ∈ m.metadata? h ↔ Knows h md m :=
  Option.bind_eq_some_iff

theorem knows_before_metadata {md : Metadata} {u : Unit} (hroom : ¬ env.LowSpace h)
    (hx : metadataReceivedAlert env h m = .ok u m') (hknows : Knows h md m') : Knows h md m := by
  obtain ⟨-, -, ⟨hlow, -⟩ | ⟨-, m₁, -, hs₁, hselect⟩⟩ := metadataReceivedAlert_ok hx
  · exact absurd hlow hroom
  · obtain ⟨md', i, fe, hselects⟩ := selectsFile_of_selectFile hselect
    obtain ⟨t, ht, hkey⟩ := hselects.own
    obtain ⟨t', ht', hmd⟩ := hknows
    obtain rfl := Option.some.inj (ht'.symm.trans ht)
    have hinfo : t'.info = some md' := congrArg (fun key => key.2.1) hkey
    obtain rfl := Option.some.inj (hinfo.symm.trans hmd)
    obtain ⟨t₀, ht₀, hmd₀⟩ := hselects.knows
    rw [hs₁] at ht₀
    exact ⟨t₀, ht₀, hmd₀⟩

/-- A call brings in no metadata. -/
theorem knows_before_call {md : Metadata} {c : Call} {u : Unit} (hs : m.streamer.Sound)
    (hkeeps : c.KeepsTo h asked m) (hgoes : ¬ c.Cancels m) (hx : c.perform m = .ok u m')
    (hknows : Knows h md m') : Knows h md m := by
  cases c with
  | metadata env h' =>
      obtain rfl : h' = h := hkeeps h' rfl
      exact knows_before_metadata hgoes hx hknows
  | pieceFinished env h' =>
      obtain ⟨-, n, m₁, hg₁, hs₁, ⟨-, -, hs'⟩ | ⟨hpresent, m₂, hnext, hagain⟩⟩ :=
        pieceFinishedAlert_ok hx
      · unfold Knows at hknows
        rw [hs', hs₁] at hknows
        exact hknows
      · have hsound₁ : m₁.streamer.Sound := by
          rw [hs₁]
          exact hs.of_eq rfl rfl
        have hback₁ : Knows h md m₁ → Knows h md m := by
          unfold Knows
          rw [hs₁]
          exact id
        -- neither the window nor the selection brings metadata
        rcases hagain with ⟨-, -, hs₂⟩ | ⟨hzero, m₃, -, hs₃, hmeta⟩
        · have hknows₂ := hknows.of_kept (by rwa [hs₂]) (keepsFiles_prioritizeNextPieces hnext)
          refine hback₁ ?_
          unfold Knows at hknows₂ ⊢
          rwa [hs₂] at hknows₂
        · obtain rfl : h' = h := hkeeps h' (by simp [Call.asks, hpresent])
          have hsound₂ := sound_metadataReceivedAlert (by rwa [hs₃]) hmeta
          have hknows₂ := hknows.of_kept hsound₂ (keepsFiles_prioritizeNextPieces hnext)
          have hroom : ¬ env.LowSpace h' := fun hlow => hgoes ⟨hpresent, hzero, hlow⟩
          have hknows₃ := knows_before_metadata hroom hmeta hknows₂
          refine hback₁ ?_
          unfold Knows at hknows₃ ⊢
          rwa [hs₃] at hknows₃
  | nextPieces env h' => exact hknows.of_kept hs (keepsFiles_prioritizeNextPieces hx)
  | fastForward env location length =>
      obtain ⟨r, hloop⟩ := fastForward_ok hx
      exact hknows.of_kept hs (required_fastForwardLoop hs hloop).1

/-- A call that asks for no pieces leaves the required ones alone. -/
theorem requiredPieces_of_asks_none {c : Call} {u : Unit} (hs : m.streamer.Sound)
    (hasks : c.asks m = none) (hx : c.perform m = .ok u m') :
    m'.streamer.requiredPieces = m.streamer.requiredPieces := by
  cases c with
  | metadata env h' => cases hasks
  | pieceFinished env h' =>
      obtain ⟨-, n, m₁, -, hs₁, ⟨-, -, hs'⟩ | ⟨hpresent, -⟩⟩ := pieceFinishedAlert_ok hx
      · rw [hs', hs₁]
        rfl
      · simp [Call.asks, hpresent] at hasks
  | nextPieces env h' => cases hasks
  | fastForward env location length =>
      obtain ⟨r, hloop⟩ := fastForward_ok hx
      exact (required_fastForwardLoop hs hloop).2.1 (Option.map_eq_none_iff.mp hasks)

/-- After a call that meets the condition no required piece has finished. -/
theorem staysRaised_call {c : Call} {u : Unit} (hs : m.streamer.Sound)
    (hkeeps : c.Keeps h asked m) (hgoes : ¬ c.Cancels m) (hx : c.perform m = .ok u m') :
    m'.StaysRaised h (c.downloadedThen h m asked) (c.answers.downloaded h) := by
  have hback : ∀ md ∈ m'.metadata? h, md ∈ m.metadata? h := fun md hmd =>
    mem_metadata?_iff.mpr
      (knows_before_call hs hkeeps.keepsTo hgoes hx (mem_metadata?_iff.mp hmd))
  intro md hmd p hp hmem
  cases hasks : c.asks m with
  | none =>
      unfold Call.Keeps at hkeeps
      rw [hasks, Option.isSome_none, if_neg Bool.false_ne_true] at hkeeps
      rw [requiredPieces_of_asks_none hs hasks hx] at hmem
      rw [Call.downloadedThen_kept hasks]
      exact hkeeps md (hback md hmd) p hp hmem
  | some h' =>
      unfold Call.Keeps at hkeeps
      rw [hasks, Option.isSome_some, if_pos rfl] at hkeeps
      obtain ⟨hown, hmissing⟩ := hkeeps
      rw [Call.downloadedThen_asked (hasks.trans hown)]
      exact ⟨hmissing md (hback md hmd), hmissing md (hback md hmd), id⟩

theorem staysRaised_during (hm : During Call.Keeps h m asked now) :
    m.StaysRaised h asked now := by
  induction hm with
  | handled hm hroom hc hx =>
      have hstays := staysRaised_call hm hc hroom hx
      rwa [Call.downloadedThen_asked rfl] at hstays
  | called hm hc hgoes hx ih => exact staysRaised_call hm.sound hc hgoes hx
  | elsewhere hm hsame ih =>
      unfold Machine.StaysRaised Machine.metadata? Session.find? at ih ⊢
      rwa [hsame.torrents, hsame.requiredPieces]

/-- **The window and the torrent agree** in every run whose calls meet the condition: the pieces
with the top priority are the required ones, only they carry a deadline, and each of them that
was missing when it was asked for carries one. -/
theorem agreed_during (hm : During Call.Keeps h m asked now) : Agreed h m asked now :=
  (agreed_iff (hm.imp fun _ _ _ hc => hc.keepsTo)).mpr (staysRaised_during hm)

end Runs

/-- A start of a torrent file handles the metadata, unless the device has no room. -/
theorem during_addAndResume {C : Nat → (Nat → Bool) → Machine → Call → Prop} {arg : Text}
    {failure : Option BlockId} {tp : AddTorrentParams} {u : Unit} (hs : m.streamer.Sound)
    (hpath : m.streamer.savePath.isSome) (hfile : isMagnet arg = false)
    (hc : ∀ h m₁, C h (env.downloaded h) m₁ (.metadata env h))
    (hx : addAndResume env arg failure tp m = .ok u m') :
    ∃ h, env.LowSpace h ∨ During C h m' (env.downloaded h) (env.downloaded h) := by
  obtain ⟨h, s₁, m₂, m₃, hadds, -, -, hs₂, hmeta, -, hs'⟩ := addAndResume_ok hx
  refine ⟨h, ?_⟩
  by_cases hlow : env.LowSpace h
  · exact Or.inl hlow
  · have hsound₂ : m₂.streamer.Sound := by
      rw [hs₂]
      exact hadds.sound hs hpath
    rcases hmeta with ⟨hmagnet, -⟩ | ⟨-, hmeta⟩
    · rw [hmagnet] at hfile
      cases hfile
    · refine Or.inr ((During.handled hsound₂ hlow (hc h m₂) hmeta).elsewhere ?_)
      rw [hs']
      exact ⟨rfl, rfl, rfl, rfl⟩

/-- A film that is cancelled, and then a longer film from a magnet link whose metadata
arrives. The session holds both torrents, the longer film before the other. -/
def cancelAndStartMagnet : List Event :=
  let short := Env.calm (Metadata.films 1 10 []) fun _ => false
  [.start short "a.torrent".toList none none none, .cancel short false,
    .start (.calm (Metadata.films 2 40 []) fun _ => false) "magnet:b".toList none none none,
    .metadataArrives 1 (Metadata.films 2 40 [])]

/-- A fast-forward misses in the run's torrent and then in the one that was cancelled: the
window is that of the second one, and nothing is required of the first. -/
theorem not_agreed_otherTorrent :
    ¬ ∀ (h : Nat) (m : Machine) (asked now : Nat → Bool),
      During (fun _ _ _ _ => True) h m asked now → Agreed h m asked now := by
  intro hall
  let env := Env.calm (Metadata.films 2 40 []) fun _ => false
  have hfinal : (((finalState cancelAndStartMagnet).bind (Call.metadata env 1).after).bind
      (Call.fastForward env 20 1).after).map (fun m => (m.streamer.requiredPieces,
        (m.streamer.session.find? 1).map fun t =>
          (t.info, decide ((t.settle fun _ => false).IsTop 20)))) =
        some ([], some (some (Metadata.films 2 40 []), true)) := by decide +kernel
  obtain ⟨m, hm, hmap⟩ := Option.map_eq_some_iff.mp hfinal
  obtain ⟨m₂, hm₂, hseek⟩ := Option.bind_eq_some_iff.mp hm
  obtain ⟨m₁, hm₁, hmeta⟩ := Option.bind_eq_some_iff.mp hm₂
  obtain ⟨hnil, t, ht, hinfo, htop⟩ : m.streamer.requiredPieces = [] ∧
      ∃ t, m.streamer.session.find? 1 = some t ∧ t.info = _ ∧
        (t.settle fun _ => false).IsTop 20 := by simpa using hmap
  have hduring : During (fun _ _ _ _ => True) 1 m₂ (env.downloaded 1) (env.downloaded 1) :=
    .handled (reachable_of_finalState hm₁).sound (by decide) trivial (Call.after_eq_some hmeta)
  obtain ⟨t', md, ht', hmd, hagrees⟩ :=
    hall 1 m _ _ (hduring.called trivial id (Call.after_eq_some hseek))
  obtain rfl := Option.some.inj (ht'.symm.trans ht)
  obtain rfl := Option.some.inj (hmd.symm.trans hinfo)
  have hrequired := (hagrees.top_iff 20 (by decide)).mp htop
  rw [hnil] at hrequired
  cases hrequired

/-- The state after a call that meets the condition. -/
def Call.kept (h : Nat) (asked : Nat → Bool) (c : Call) (m : Machine) : Option Machine :=
  if c.Keeps h asked m then c.after m else none

theorem Call.kept_eq_some {asked : Nat → Bool} {c : Call} (hm : c.kept h asked m = some m') :
    c.Keeps h asked m ∧ c.perform m = .ok () m' := by
  unfold Call.kept at hm
  split at hm
  · rename_i hkeeps
    exact ⟨hkeeps, Call.after_eq_some hm⟩
  · cases hm

/-- The longer film alone: a fast-forward misses, and the piece it asks for finishes. -/
theorem agreed_oneTorrent :
    ∃ m asked now, During Call.Keeps 0 m asked now ∧ m.streamer.requiredPieces = [21] ∧
      now 20 = true ∧ Agreed 0 m asked now := by
  let env := Env.calm (Metadata.films 2 40 []) fun _ => false
  let later := Env.calm (Metadata.films 2 40 []) fun p => p == 20
  let es : List Event := [.start env "magnet:b".toList none none none,
    .metadataArrives 0 (Metadata.films 2 40 [])]
  have hfinal : ((((finalState es).bind ((Call.metadata env 0).kept 0 fun _ => false)).bind
      ((Call.fastForward env 20 1).kept 0 fun _ => false)).bind
        ((Call.pieceFinished later 0).kept 0 fun _ => false)).map
          (·.streamer.requiredPieces) = some [21] := by decide +kernel
  obtain ⟨m, hm, hrequired⟩ := Option.map_eq_some_iff.mp hfinal
  obtain ⟨m₂, hm₂, hnext⟩ := Option.bind_eq_some_iff.mp hm
  obtain ⟨m₁, hm₁, hseek⟩ := Option.bind_eq_some_iff.mp hm₂
  obtain ⟨m₀, hm₀, hmeta⟩ := Option.bind_eq_some_iff.mp hm₁
  obtain ⟨hkeeps₀, hmeta⟩ := Call.kept_eq_some hmeta
  obtain ⟨hkeeps₁, hseek⟩ := Call.kept_eq_some hseek
  obtain ⟨hkeeps₂, hnext⟩ := Call.kept_eq_some hnext
  have hhandled : During Call.Keeps 0 m₁ (env.downloaded 0) (env.downloaded 0) :=
    .handled (reachable_of_finalState hm₀).sound (by decide) hkeeps₀ hmeta
  have hsought := hhandled.called hkeeps₁ id hseek
  have hasked : (Call.fastForward env 20 1).downloadedThen 0 m₁ (env.downloaded 0) =
      fun _ => false := ite_self _
  rw [hasked] at hsought
  have hroom : ¬ (Call.pieceFinished later 0).Cancels m₂ := fun hlow => absurd hlow.2.2 (by decide)
  have hduring := hsought.called hkeeps₂ hroom hnext
  exact ⟨m, _, _, hduring, hrequired, rfl, agreed_during hduring⟩

end BtDownloader
