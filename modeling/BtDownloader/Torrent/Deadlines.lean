import BtDownloader.Torrent.Priorities

set_option autoImplicit false

/-! # Top priorities and deadlines

A window of pieces is asked for with top priorities and with deadlines. `Agrees` relates
both to the list of pieces that were asked for. A single raise of a piece adds it to the two
tables at once (`IsTop.raise`, `mem_deadlines_raise`), and `clear_piece_deadlines` with
`prioritize_pieces` starts the tables afresh. A piece that finishes drops out of both tables;
`Quiet` says that none has.
-/

namespace BtDownloader

namespace Torrent

variable {downloaded : Nat → Bool} {t : Torrent} {md : Metadata}

/-- Piece `p` of the torrent has the top priority. -/
def IsTop (t : Torrent) (p : Nat) : Prop := t.piecePriorities[p]? = some priorityMaximum

instance (t : Torrent) (p : Nat) : Decidable (t.IsTop p) := inferInstanceAs (Decidable (_ = _))

/-- A deadline can be set for `p`: it is a piece of the torrent and not downloaded. -/
def Waits (downloaded : Nat → Bool) (n : Nat) (p : Int) : Prop :=
  0 ≤ p ∧ p < n ∧ downloaded p.toNat = false

/-- The torrent of `n` pieces agrees with the pieces that were asked for when `downloaded`
were downloaded: they have the top priority and no other pieces have, only they carry a
deadline, and each of them that was missing carries one. -/
structure Agrees (t : Torrent) (n : Nat) (required : List Int) (downloaded : Nat → Bool) :
    Prop where
  top_iff : ∀ p < n, t.IsTop p ↔ (p : Int) ∈ required
  asked : ∀ p ∈ t.deadlines, (0 ≤ p ∧ p < n) ∧ p ∈ required
  given : ∀ p < n, (p : Int) ∈ required → downloaded p = false → (p : Int) ∈ t.deadlines

/-- A torrent whose deadlines are those of the missing pieces of `required` agrees. -/
theorem Agrees.of_waits {n : Nat} {required : List Int}
    (htop : ∀ p < n, t.IsTop p ↔ (p : Int) ∈ required)
    (hdeadlines : ∀ p, p ∈ t.deadlines ↔ p ∈ required ∧ Waits downloaded n p) :
    t.Agrees n required downloaded where
  top_iff := htop
  asked p hp := by
    obtain ⟨hmem, hnonneg, hlt, -⟩ := (hdeadlines p).mp hp
    exact ⟨⟨hnonneg, hlt⟩, hmem⟩
  given p hp hmem hmissing := by
    refine (hdeadlines p).mpr ⟨hmem, by omega, by omega, ?_⟩
    simpa using hmissing

/-! ## Pieces that finish -/

/-- No piece with a deadline is downloaded. -/
def Quiet (downloaded : Nat → Bool) (t : Torrent) : Prop :=
  ∀ p ∈ t.deadlines, downloaded p.toNat = false

instance (downloaded : Nat → Bool) (t : Torrent) : Decidable (t.Quiet downloaded) :=
  inferInstanceAs (Decidable (∀ p ∈ t.deadlines, downloaded p.toNat = false))

/-- Where no piece with a deadline has finished, the torrent is as it was. -/
theorem settle_of_quiet (hseed : t.isSeed downloaded = false) (hquiet : t.Quiet downloaded) :
    t.settle downloaded = t := by
  have hnone : (t.deadlines.filter fun p => downloaded p.toNat) = [] := by
    rw [List.filter_eq_nil_iff]
    intro p hp
    simp [hquiet p hp]
  have hall : (t.deadlines.filter fun p => !downloaded p.toNat) = t.deadlines := by
    rw [List.filter_eq_self]
    intro p hp
    simp [hquiet p hp]
  unfold settle
  rw [hseed, if_neg Bool.false_ne_true, hnone, hall]
  rfl

theorem quiet_settle (downloaded : Nat → Bool) (t : Torrent) :
    (t.settle downloaded).Quiet downloaded := by
  intro p hp
  unfold settle at hp
  split at hp
  · cases hp
  · simpa using (List.mem_filter.mp hp).2

theorem mem_setPiecePriorities_deadlines {ps : List Nat} {p : Int}
    (hp : p ∈ (t.setPiecePriorities ps).deadlines) : p ∈ t.deadlines := by
  simp only [setPiecePriorities] at hp
  split at hp
  · exact (List.mem_filter.mp hp).1
  · exact hp

/-- Only pieces that are not downloaded get a deadline. -/
theorem quiet_command (hquiet : t.Quiet downloaded) (c : TorrentCommand) :
    (t.command downloaded c).Quiet downloaded := by
  intro p hp
  -- without metadata a command about pieces does nothing
  cases hmd : t.info with
  | none =>
      refine hquiet p ?_
      cases c <;> simpa [command, hmd] using hp
  | some md =>
      cases c with
      | prioritizeFiles ps =>
          simp only [command, hmd] at hp
          split_ifs at hp
          · exact hquiet p hp
          · exact hquiet p (mem_setPiecePriorities_deadlines hp)
      | prioritizePieces ps =>
          simp only [command, hmd] at hp
          split_ifs at hp
          · exact hquiet p hp
          · exact hquiet p (mem_setPiecePriorities_deadlines hp)
      | piecePriority piece priority =>
          simp only [command, hmd] at hp
          split_ifs at hp
          · exact hquiet p (List.mem_of_mem_erase hp)
          · exact hquiet p hp
          · exact hquiet p hp
      | setPieceDeadline piece ms =>
          simp only [command, hmd] at hp
          -- the only command that adds a deadline asks whether the piece waits
          split_ifs at hp with hwaits hmem
          · exact hquiet p hp
          · rcases List.mem_append.mp hp with hp | hp
            · exact hquiet p hp
            · rw [List.mem_singleton.mp hp]
              exact hwaits.2.2
          · exact hquiet p hp
      | clearPieceDeadlines =>
          simp only [command, hmd] at hp
          cases hp
      | _ =>
          refine hquiet p ?_
          simpa [command] using hp

/-- After a command about priorities or deadlines no piece that has finished has a deadline. -/
theorem quiet_apply (downloaded : Nat → Bool) (t : Torrent) {c : TorrentCommand}
    (hc : c.isPriority = true) : (t.apply downloaded c).Quiet downloaded := by
  rw [apply, if_pos hc]
  exact quiet_command (quiet_settle downloaded t) c

@[simp] theorem apply_isSeed (t : Torrent) (c : TorrentCommand) :
    (t.apply downloaded c).isSeed downloaded = t.isSeed downloaded := by
  simp [isSeed]

/-! ## One command -/

theorem clear_deadlines (hmd : t.info = some md) :
    (t.apply downloaded .clearPieceDeadlines).deadlines = [] := by
  simp [apply, TorrentCommand.isPriority, command, hmd]

/-- A command to a torrent that is no seed and none of whose pieces has finished. -/
theorem apply_of_quiet (hseed : t.isSeed downloaded = false) (hquiet : t.Quiet downloaded)
    (c : TorrentCommand) : t.apply downloaded c = t.command downloaded c := by
  unfold apply
  rw [settle_of_quiet hseed hquiet, ite_self]

section Command

variable (hmd : t.info = some md) (hseed : t.isSeed downloaded = false)
  (hquiet : t.Quiet downloaded)

include hmd hseed hquiet

theorem mem_deadlines_setPieceDeadline (piece p : Int) (ms : Nat) :
    p ∈ (t.apply downloaded (.setPieceDeadline piece ms)).deadlines ↔
      p ∈ t.deadlines ∨ p = piece ∧ Waits downloaded md.val.numPieces p := by
  rw [apply_of_quiet hseed hquiet]
  simp only [command, hmd]
  -- a piece outside the torrent, or one that is downloaded, gets no deadline
  by_cases hw : 0 ≤ piece ∧ piece < md.val.numPieces ∧ downloaded piece.toNat = false
  · rw [if_pos hw]
    by_cases hmem : piece ∈ t.deadlines
    · rw [if_pos hmem]
      constructor
      · exact Or.inl
      · rintro (hp | ⟨rfl, -⟩)
        · exact hp
        · exact hmem
    · rw [if_neg hmem, List.mem_append, List.mem_singleton]
      constructor
      · rintro (hp | rfl)
        · exact Or.inl hp
        · exact Or.inr ⟨rfl, hw⟩
      · exact Or.imp_right And.left
  · rw [if_neg hw]
    constructor
    · exact Or.inl
    · rintro (hp | ⟨rfl, hwaits⟩)
      · exact hp
      · exact absurd hwaits hw

theorem deadlines_piecePriority (piece : Int) :
    (t.apply downloaded (.piecePriority piece priorityMaximum)).deadlines = t.deadlines := by
  have hne : priorityMaximum ≠ prioritySkip := by decide
  rw [apply_of_quiet hseed hquiet]
  simp only [command, hmd, hne, false_and, if_false]
  split <;> rfl

/-- `prioritize_pieces` that skips no piece leaves the deadlines alone. -/
theorem deadlines_prioritizePieces {ps : List Nat} (hps : ∀ x ∈ ps, x ≠ prioritySkip) :
    (t.apply downloaded (.prioritizePieces ps)).deadlines = t.deadlines := by
  rw [apply_of_quiet hseed hquiet]
  simp only [command, hmd, hseed, if_neg Bool.false_ne_true, setPiecePriorities]
  split
  · rw [List.filter_eq_self]
    intro p _
    rw [decide_eq_true_eq]
    intro hskip
    exact hps _ (List.mem_of_getElem? hskip) rfl
  · rfl

/-- The priority of `piece` is set, that of any other piece kept. -/
theorem isTop_piecePriority (hsized : t.Sized) (piece : Int) {p : Nat}
    (hp : p < md.val.numPieces) :
    (t.apply downloaded (.piecePriority piece priorityMaximum)).IsTop p ↔
      t.IsTop p ∨ (p : Int) = piece := by
  have hlt : p < t.piecePriorities.length := by rw [hsized md hmd]; exact hp
  have hne : priorityMaximum ≠ prioritySkip := by decide
  rw [apply_of_quiet hseed hquiet]
  simp only [command, hmd, hseed, hne, false_and, true_and, if_false, IsTop]
  by_cases hpiece : 0 ≤ piece ∧ piece < md.val.numPieces
  · rw [if_pos hpiece]
    dsimp only
    rw [List.getElem?_set]
    by_cases heq : piece.toNat = p
    · rw [if_pos heq, if_pos (by omega)]
      have : (p : Int) = piece := by omega
      simp [this]
    · rw [if_neg heq]
      have : ¬ (p : Int) = piece := by omega
      simp [this]
  · rw [if_neg hpiece]
    have : ¬ (p : Int) = piece := by omega
    simp [this]

theorem isTop_setPieceDeadline (hsized : t.Sized) (piece : Int) (ms : Nat) {p : Nat}
    (hp : p < md.val.numPieces) :
    (t.apply downloaded (.setPieceDeadline piece ms)).IsTop p ↔
      t.IsTop p ∨ (p : Int) = piece ∧ Waits downloaded md.val.numPieces p := by
  have hlt : p < t.piecePriorities.length := by rw [hsized md hmd]; exact hp
  rw [apply_of_quiet hseed hquiet]
  simp only [command, hmd, IsTop]
  by_cases hw : 0 ≤ piece ∧ piece < md.val.numPieces ∧ downloaded piece.toNat = false
  · rw [if_pos hw]
    dsimp only
    rw [List.getElem?_set]
    by_cases heq : (p : Int) = piece
    · subst heq
      rw [if_pos (by simp), if_pos (by simpa using hlt)]
      exact iff_of_true rfl (Or.inr ⟨rfl, hw⟩)
    · rw [if_neg (by omega)]
      simp [heq]
  · rw [if_neg hw]
    constructor
    · exact Or.inl
    · rintro (htop | ⟨rfl, hwaits⟩)
      · exact htop
      · exact absurd hwaits hw

end Command

end Torrent

end BtDownloader
