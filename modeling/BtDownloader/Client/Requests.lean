import BtDownloader.Client.Start
import BtDownloader.Client.Reachable
import BtDownloader.Torrent.Deadlines

set_option autoImplicit false

/-! # Required pieces and the torrent's priorities

`required_pieces` is the streamer's own record of the pieces it asked the torrent for. A call
that asks for pieces writes the record and sends the commands (`Torrent.agrees_window`,
`Torrent.agrees_select`). The record is one for all torrents of the session, and a
fast-forward goes through all of them.
-/

namespace BtDownloader

open Program

variable {m m' : Machine} {env : Env} {h : Nat}

/-! ## Batches of commands -/

/-- Of the raised low priorities, those of the window are the top ones. -/
theorem getElem?_raised_low (w : List Int) {ps : List Nat} {p : Nat} (hp : p < ps.length) :
    (raised w (ps.map fun _ => priorityLow))[p]? = some priorityMaximum ↔ (p : Int) ∈ w := by
  have hlow : priorityLow ≠ priorityMaximum := by decide
  rw [getElem?_raised, List.getElem?_map, List.getElem?_eq_getElem hp]
  by_cases hmem : (p : Int) ∈ w
  · simp [hmem]
  · simp [hmem, hlow]

section Commands

variable {downloaded : Nat → Bool} {t : Torrent} {md : Metadata}

theorem Torrent.applyAll_isSeed (cs : List TorrentCommand) :
    (t.applyAll downloaded cs).isSeed downloaded = t.isSeed downloaded := by
  rw [isSeed, applyAll_info]
  rfl

variable (hmd : t.info = some md) (hseed : t.isSeed downloaded = false)

include hmd hseed

theorem Torrent.mem_deadlines_deadlineCommands (hquiet : t.Quiet downloaded) (w : List Int)
    (p : Int) :
    p ∈ (t.applyAll downloaded (deadlineCommands w)).deadlines ↔
      p ∈ t.deadlines ∨ p ∈ w ∧ Waits downloaded md.val.numPieces p := by
  induction w generalizing t with
  | nil => simp [deadlineCommands, applyAll]
  | cons piece w ih =>
      let c := TorrentCommand.setPieceDeadline piece pieceDeadlineMillis
      have hinfo := (apply_info downloaded t c).trans hmd
      have hseed₁ : (t.apply downloaded c).isSeed downloaded = false :=
        (apply_isSeed t c).trans hseed
      refine (ih hinfo hseed₁ (quiet_apply downloaded t rfl)).trans ?_
      rw [mem_deadlines_setPieceDeadline hmd hseed hquiet, List.mem_cons, or_and_right, or_assoc]

omit hseed in
theorem Torrent.sized_deadlineCommands (hsized : t.Sized) (w : List Int) :
    (t.applyAll downloaded (deadlineCommands w)).Sized := by
  induction w generalizing t with
  | nil => exact hsized
  | cons piece w ih =>
      have hinfo :=
        (apply_info downloaded t (.setPieceDeadline piece pieceDeadlineMillis)).trans hmd
      exact ih hinfo (sized_apply hsized trivial)

omit hmd hseed in
theorem Torrent.quiet_deadlineCommands (hquiet : t.Quiet downloaded) (w : List Int) :
    (t.applyAll downloaded (deadlineCommands w)).Quiet downloaded := by
  induction w generalizing t with
  | nil => exact hquiet
  | cons piece w ih => exact ih (quiet_apply downloaded t rfl)

/-- **A window that is asked for agrees with the torrent**, if that is no seed. -/
theorem Torrent.agrees_window (hsized : t.Sized) (w : List Int) :
    (t.applyAll downloaded (.clearPieceDeadlines :: deadlineCommands w ++
      [.prioritizePieces (raised w (t.piecePriorities.map fun _ => priorityLow))])).Agrees
        md.val.numPieces w downloaded := by
  -- after the deadlines are cleared, and after those of the window are set
  let t₁ := t.apply downloaded .clearPieceDeadlines
  let t₂ := t₁.applyAll downloaded (deadlineCommands w)
  let ps := raised w (t.piecePriorities.map fun _ => priorityLow)
  have hinfo₁ : t₁.info = some md := (apply_info downloaded t .clearPieceDeadlines).trans hmd
  have hseed₁ : t₁.isSeed downloaded = false := (apply_isSeed t _).trans hseed
  have hquiet₁ : t₁.Quiet downloaded := quiet_apply downloaded t rfl
  have hsized₁ : t₁.Sized := sized_apply hsized trivial
  have hinfo₂ : t₂.info = some md := (applyAll_info downloaded _ (deadlineCommands w)).trans hinfo₁
  have hseed₂ : t₂.isSeed downloaded = false := (applyAll_isSeed _).trans hseed₁
  have hquiet₂ : t₂.Quiet downloaded := quiet_deadlineCommands hquiet₁ w
  have hlength := hsized md hmd
  have hlength₂ := sized_deadlineCommands hinfo₁ hsized₁ w md hinfo₂
  have hps : ∀ x ∈ ps, x ≠ prioritySkip := by
    intro x hx
    rcases mem_raised_low hx with rfl | rfl <;> decide
  rw [applyAll_append, applyAll_singleton]
  show (t₂.apply downloaded (.prioritizePieces ps)).Agrees _ _ _
  refine Agrees.of_waits (fun p hp => ?_) fun p => ?_
  · have hlen : t₂.piecePriorities.length ≤ ps.length :=
      hlength₂.trans_le (by simp [ps, hlength])
    rw [IsTop, piecePriorities_prioritizePieces hinfo₂ hseed₂ hlen]
    exact getElem?_raised_low w (by omega)
  · rw [deadlines_prioritizePieces hinfo₂ hseed₂ hquiet₂ hps]
    refine (mem_deadlines_deadlineCommands hinfo₁ hseed₁ hquiet₁ w p).trans ?_
    rw [clear_deadlines hmd]
    simp

theorem Torrent.isTop_raiseCommands (hquiet : t.Quiet downloaded) (hsized : t.Sized)
    (ps : List Int) {p : Nat} (hp : p < md.val.numPieces) :
    (t.applyAll downloaded (raiseCommands ps)).IsTop p ↔ t.IsTop p ∨ (p : Int) ∈ ps := by
  induction ps generalizing t with
  | nil => simp [raiseCommands, applyAll]
  | cons piece ps ih =>
      -- each required piece gets the top priority, then a deadline that keeps it
      let t₁ := t.apply downloaded (.piecePriority piece priorityMaximum)
      have hinfo₁ : t₁.info = some md := (apply_info downloaded t _).trans hmd
      have hseed₁ : t₁.isSeed downloaded = false := (apply_isSeed t _).trans hseed
      have hquiet₁ : t₁.Quiet downloaded := quiet_apply downloaded t rfl
      have hsized₁ : t₁.Sized := sized_apply hsized trivial
      let c := TorrentCommand.setPieceDeadline piece pieceDeadlineMillis
      have hinfo₂ := (apply_info downloaded t₁ c).trans hinfo₁
      have hseed₂ : (t₁.apply downloaded c).isSeed downloaded = false :=
        (apply_isSeed t₁ c).trans hseed₁
      refine (ih hinfo₂ hseed₂ (quiet_apply downloaded t₁ rfl)
        (sized_apply hsized₁ trivial)).trans ?_
      rw [isTop_setPieceDeadline hinfo₁ hseed₁ hquiet₁ hsized₁ piece pieceDeadlineMillis hp,
        isTop_piecePriority hmd hseed hquiet hsized piece hp, List.mem_cons]
      constructor
      · rintro (((htop | hpiece) | ⟨hpiece, -⟩) | hmem)
        · exact Or.inl htop
        · exact Or.inr (Or.inl hpiece)
        · exact Or.inr (Or.inl hpiece)
        · exact Or.inr (Or.inr hmem)
      · rintro (htop | hpiece | hmem)
        · exact Or.inl (Or.inl (Or.inl htop))
        · exact Or.inl (Or.inl (Or.inr hpiece))
        · exact Or.inr hmem

theorem Torrent.mem_deadlines_raiseCommands (hquiet : t.Quiet downloaded) (ps : List Int)
    (p : Int) :
    p ∈ (t.applyAll downloaded (raiseCommands ps)).deadlines ↔
      p ∈ t.deadlines ∨ p ∈ ps ∧ Waits downloaded md.val.numPieces p := by
  induction ps generalizing t with
  | nil => simp [raiseCommands, applyAll]
  | cons piece ps ih =>
      let t₁ := t.apply downloaded (.piecePriority piece priorityMaximum)
      have hinfo₁ : t₁.info = some md := (apply_info downloaded t _).trans hmd
      have hseed₁ : t₁.isSeed downloaded = false := (apply_isSeed t _).trans hseed
      have hquiet₁ : t₁.Quiet downloaded := quiet_apply downloaded t rfl
      let c := TorrentCommand.setPieceDeadline piece pieceDeadlineMillis
      have hinfo₂ := (apply_info downloaded t₁ c).trans hinfo₁
      have hseed₂ : (t₁.apply downloaded c).isSeed downloaded = false :=
        (apply_isSeed t₁ c).trans hseed₁
      refine (ih hinfo₂ hseed₂ (quiet_apply downloaded t₁ rfl)).trans ?_
      rw [mem_deadlines_setPieceDeadline hinfo₁ hseed₁ hquiet₁,
        deadlines_piecePriority hmd hseed hquiet, List.mem_cons, or_and_right, or_assoc]

/-- **So do the pieces of a metadata alert.** Of the priorities that `prioritize_files` gives
nothing is left when the pieces are raised. -/
theorem Torrent.agrees_select (hsized : t.Sized) {n k : Nat} {i : Int} (required : List Int)
    (hk : k = (t.applyAll downloaded [.prioritizeFiles (onlyFile n i),
      .clearPieceDeadlines]).piecePriorities.length) :
    (t.applyAll downloaded (selectCommands n k i required)).Agrees md.val.numPieces required
      downloaded := by
  let t₁ := t.apply downloaded (.prioritizeFiles (onlyFile n i))
  let t₂ := t₁.apply downloaded .clearPieceDeadlines
  let t₃ := t₂.apply downloaded (.prioritizePieces (List.replicate k priorityLow))
  have hinfo₁ : t₁.info = some md := (apply_info downloaded t _).trans hmd
  have hseed₁ : t₁.isSeed downloaded = false := (apply_isSeed t _).trans hseed
  have hinfo₂ : t₂.info = some md := (apply_info downloaded t₁ _).trans hinfo₁
  have hseed₂ : t₂.isSeed downloaded = false := (apply_isSeed t₁ _).trans hseed₁
  have hinfo₃ : t₃.info = some md := (apply_info downloaded t₂ _).trans hinfo₂
  have hseed₃ : t₃.isSeed downloaded = false := (apply_isSeed t₂ _).trans hseed₂
  have hquiet₂ : t₂.Quiet downloaded := quiet_apply downloaded t₁ rfl
  have hquiet₃ : t₃.Quiet downloaded := quiet_apply downloaded t₂ rfl
  have hsized₁ : t₁.Sized := sized_apply hsized trivial
  have hsized₂ : t₂.Sized := sized_apply hsized₁ trivial
  replace hk : k = t₂.piecePriorities.length := hk
  have hfits : t₂.Fits (.prioritizePieces (List.replicate k priorityLow)) := by
    simp [Fits, hk]
  have hsized₃ : t₃.Sized := sized_apply hsized₂ hfits
  -- before the pieces are raised, no piece is at the top and none has a deadline
  have hlow : t₃.piecePriorities = List.replicate k priorityLow :=
    piecePriorities_prioritizePieces hinfo₂ hseed₂ (by simp [hk])
  have hnone : t₃.deadlines = [] := by
    have hskip : ∀ x ∈ List.replicate k priorityLow, x ≠ prioritySkip := by
      intro x hx
      rw [List.eq_of_mem_replicate hx]
      decide
    exact (deadlines_prioritizePieces hinfo₂ hseed₂ hquiet₂ hskip).trans (clear_deadlines hinfo₁)
  have hsplit : t.applyAll downloaded (selectCommands n k i required) =
      t₃.applyAll downloaded (raiseCommands required) := rfl
  rw [hsplit]
  refine Agrees.of_waits (fun p hp => ?_) fun p => ?_
  · refine (isTop_raiseCommands hinfo₃ hseed₃ hquiet₃ hsized₃ required hp).trans ?_
    refine or_iff_right fun htop => ?_
    rw [IsTop, hlow] at htop
    exact absurd (List.eq_of_mem_replicate (List.mem_of_getElem? htop)) (by decide)
  · refine (mem_deadlines_raiseCommands hinfo₃ hseed₃ hquiet₃ required p).trans ?_
    refine or_iff_right fun hmem => ?_
    rw [hnone] at hmem
    cases hmem

end Commands

/-! ## The calls of a run -/

/-- The handlers and commands that ask for pieces. -/
inductive Call
  | metadata (env : Env) (h : Nat)
  | pieceFinished (env : Env) (h : Nat)
  | nextPieces (env : Env) (h : Nat)
  | fastForward (env : Env) (location length : Nat)

namespace Call

def perform : Call → Handler Unit
  | .metadata env h => metadataReceivedAlert env h
  | .pieceFinished env h => pieceFinishedAlert env h
  | .nextPieces env h => prioritizeNextPieces env h
  | .fastForward env location length => do
      let _ ← fastForwardTorrentForRange env location length

def answers : Call → Env
  | .metadata env _ => env
  | .pieceFinished env _ => env
  | .nextPieces env _ => env
  | .fastForward env _ _ => env

end Call

/-- The state after a call. -/
def Call.after (c : Call) (m : Machine) : Option Machine :=
  match c.perform m with
  | .ok () m' => some m'
  | .error _ _ => none

theorem Call.after_eq_some {c : Call} (hm : c.after m = some m') : c.perform m = .ok () m' := by
  unfold Call.after at hm
  split at hm
  · rename_i m₁ hx
    rw [hx, Option.some.inj hm]
  · cases hm

/-- From `s` to `s'` neither the torrents nor the required pieces change. -/
structure Streamer.SameRequests (s s' : Streamer) : Prop where
  torrents : s'.session.torrents = s.session.torrents
  nextHandle : s'.session.nextHandle = s.session.nextHandle
  savePath : s'.savePath = s.savePath
  requiredPieces : s'.requiredPieces = s.requiredPieces

theorem Streamer.Sound.of_same {s s' : Streamer} (hs : s.Sound) (hsame : s.SameRequests s') :
    s'.Sound := by
  obtain ⟨h₁, h₂, h₃, h₄⟩ := hs
  obtain ⟨htorrents, hnext, hpath, -⟩ := hsame
  exact ⟨by rwa [htorrents], by rwa [htorrents, hnext], by rwa [htorrents],
    by rwa [htorrents, hpath]⟩

end BtDownloader
