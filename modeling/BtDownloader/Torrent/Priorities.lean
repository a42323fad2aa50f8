import BtDownloader.Torrent.Session

set_option autoImplicit false

/-! # Piece priorities under commands

Which commands keep every piece of a torrent wanted, that is, at a priority other than
`LIBTORRENT_PRIORITY_SKIP`. Only `prioritize_files` can make a piece skipped as long as no
other command names the priority `0`.
-/

namespace BtDownloader

namespace Torrent

/-- The torrent has a priority for each of its pieces. -/
def Sized (t : Torrent) : Prop :=
  ∀ md, t.info = some md → t.piecePriorities.length = md.val.numPieces

/-- The torrent has a priority for each of its pieces, and skips none of them. -/
def AllWanted (t : Torrent) : Prop :=
  t.Sized ∧ (t.info.isSome → ∀ x ∈ t.piecePriorities, x ≠ prioritySkip)

theorem length_lowered (ps : List Nat) (pieces : List Int) :
    (lowered ps pieces).length = ps.length := by
  unfold lowered
  induction pieces generalizing ps with
  | nil => rfl
  | cons p pieces ih => rw [List.foldl_cons, ih, List.length_set]

theorem mem_lowered {ps : List Nat} {pieces : List Int} {y : Nat} (h : y ∈ lowered ps pieces) :
    y ∈ ps ∨ y = priorityLow := by
  unfold lowered at h
  induction pieces generalizing ps with
  | nil => exact Or.inl h
  | cons p pieces ih =>
      rcases ih h with h | h
      · exact List.mem_or_eq_of_mem_set h
      · exact Or.inr h

theorem length_settle (downloaded : Nat → Bool) (t : Torrent) :
    (t.settle downloaded).piecePriorities.length = t.piecePriorities.length := by
  unfold settle
  split
  · exact List.length_map _
  · exact length_lowered _ _

/-- Finished pieces take no piece's priority away. -/
theorem sized_settle {t : Torrent} (downloaded : Nat → Bool) (ht : t.Sized) :
    (t.settle downloaded).Sized := by
  intro md hmd
  rw [settle_info] at hmd
  rw [length_settle]
  exact ht md hmd

/-- The low and the default priority skip no piece. -/
theorem allWanted_settle {t : Torrent} (downloaded : Nat → Bool) (ht : t.AllWanted) :
    (t.settle downloaded).AllWanted := by
  refine ⟨sized_settle downloaded ht.1, fun hsome x hx => ?_⟩
  rw [settle_info] at hsome
  unfold settle at hx
  split at hx
  · obtain ⟨y, -, rfl⟩ := List.mem_map.mp hx
    decide
  · rcases mem_lowered hx with hx | rfl
    · exact ht.2 hsome x hx
    · decide

theorem allWanted_of_none {t : Torrent} (hnone : t.info = none) : t.AllWanted := by
  refine ⟨fun md hmd => ?_, fun hsome => ?_⟩
  · rw [hnone] at hmd
    cases hmd
  · rw [hnone] at hsome
    cases hsome

/-- `prioritize_pieces` is not called with more priorities than there are pieces. -/
def Fits (t : Torrent) : TorrentCommand → Prop
  | .prioritizePieces priorities => priorities.length ≤ t.piecePriorities.length
  | _ => True

theorem length_setPiecePriorities {t : Torrent} {ps : List Nat}
    (h : ps.length ≤ t.piecePriorities.length) :
    (t.setPiecePriorities ps).piecePriorities.length = t.piecePriorities.length := by
  simp only [setPiecePriorities, List.length_append, List.length_drop]
  omega

theorem sized_command {downloaded : Nat → Bool} {t : Torrent} {c : TorrentCommand}
    (ht : t.Sized) (hc : t.Fits c) : (t.command downloaded c).Sized := by
  intro md hmd
  rw [command_info] at hmd
  have hlen := ht md hmd
  -- a list that is shorter than the table leaves the rest of it
  cases c with
  | prioritizeFiles ps =>
      simp only [command, hmd]
      split_ifs
      · exact hlen
      · rw [length_setPiecePriorities (by simp [hlen])]
        exact hlen
  | prioritizePieces ps =>
      simp only [command, hmd]
      split_ifs
      · exact hlen
      · rw [length_setPiecePriorities hc]
        exact hlen
  | piecePriority piece priority =>
      simp only [command, hmd]
      split_ifs <;> simp [hlen]
  | setPieceDeadline piece ms =>
      simp only [command, hmd]
      split_ifs <;> simp [hlen]
  | clearPieceDeadlines =>
      simp only [command, hmd]
      rw [length_lowered]
      exact hlen
  | _ => simpa [command] using hlen

theorem fits_settle {downloaded : Nat → Bool} {t : Torrent} {c : TorrentCommand}
    (hc : t.Fits c) : (t.settle downloaded).Fits c := by
  cases c with
  | prioritizePieces ps =>
      show ps.length ≤ (t.settle downloaded).piecePriorities.length
      rw [length_settle]
      exact hc
  | _ => exact trivial

theorem sized_apply {downloaded : Nat → Bool} {t : Torrent} {c : TorrentCommand}
    (ht : t.Sized) (hc : t.Fits c) : (t.apply downloaded c).Sized := by
  unfold apply
  split
  · exact sized_command (sized_settle downloaded ht) (fits_settle hc)
  · exact sized_command ht hc

/-- The command asks for no piece to be skipped. -/
def Wants (t : Torrent) : TorrentCommand → Prop
  | .prioritizeFiles _ => False
  | .prioritizePieces priorities =>
      priorities.length ≤ t.piecePriorities.length ∧ ∀ x ∈ priorities, x ≠ prioritySkip
  | .piecePriority _ priority => priority ≠ prioritySkip
  | _ => True

theorem Wants.fits {t : Torrent} {c : TorrentCommand} (h : t.Wants c) : t.Fits c := by
  cases c with
  | prioritizePieces ps => exact h.1
  | _ => exact trivial

theorem wants_settle {downloaded : Nat → Bool} {t : Torrent} {c : TorrentCommand}
    (hc : t.Wants c) : (t.settle downloaded).Wants c := by
  cases c with
  | prioritizePieces ps => exact ⟨fits_settle hc.fits, hc.2⟩
  | _ => exact hc

theorem allWanted_command {downloaded : Nat → Bool} {t : Torrent} {c : TorrentCommand}
    (ht : t.AllWanted) (hc : t.Wants c) : (t.command downloaded c).AllWanted := by
  refine ⟨sized_command ht.1 hc.fits, fun hsome x hx => ?_⟩
  rw [command_info] at hsome
  obtain ⟨md, hmd⟩ := Option.isSome_iff_exists.mp hsome
  have hwant := ht.2 hsome
  -- a table that is written keeps what the command does not set
  cases c with
  | prioritizeFiles ps => exact hc.elim
  | prioritizePieces ps =>
      simp only [command, hmd] at hx
      split_ifs at hx
      · exact hwant x hx
      · rcases List.mem_append.mp hx with hx | hx
        · exact hc.2 x hx
        · exact hwant x (List.mem_of_mem_drop hx)
  | piecePriority piece priority =>
      have hne : priority ≠ prioritySkip := hc
      simp only [command, hmd, hne, false_and, if_false] at hx
      split_ifs at hx
      · rcases List.mem_or_eq_of_mem_set hx with hx | rfl
        · exact hwant x hx
        · exact hne
      · exact hwant x hx
  | setPieceDeadline piece ms =>
      simp only [command, hmd] at hx
      split_ifs at hx
      all_goals first
        | exact hwant x hx
        | (rcases List.mem_or_eq_of_mem_set hx with hx | rfl
           · exact hwant x hx
           · decide)
  | clearPieceDeadlines =>
      simp only [command, hmd] at hx
      rcases mem_lowered hx with hx | rfl
      · exact hwant x hx
      · decide
  | _ =>
      simp only [command] at hx
      exact hwant x hx

/-- A command that asks for no piece to be skipped leaves no piece skipped. -/
theorem allWanted_apply {downloaded : Nat → Bool} {t : Torrent} {c : TorrentCommand}
    (ht : t.AllWanted) (hc : t.Wants c) : (t.apply downloaded c).AllWanted := by
  unfold apply
  split
  · exact allWanted_command (allWanted_settle downloaded ht) (wants_settle hc)
  · exact allWanted_command ht hc

/-- `prioritize_pieces` for all pieces sets every one of them, unless the torrent is a seed. -/
theorem piecePriorities_prioritizePieces {downloaded : Nat → Bool} {t : Torrent} {md : Metadata}
    {ps : List Nat} (hmd : t.info = some md) (hseed : t.isSeed downloaded = false)
    (hlen : t.piecePriorities.length ≤ ps.length) :
    (t.apply downloaded (.prioritizePieces ps)).piecePriorities = ps := by
  have hlen' : (t.settle downloaded).piecePriorities.length ≤ ps.length := by
    rw [length_settle]
    exact hlen
  simp [apply, TorrentCommand.isPriority, command, hmd, hseed, setPiecePriorities,
    List.drop_eq_nil_of_le hlen']

/-! ## Seeds -/

theorem downloaded_of_isSeed {downloaded : Nat → Bool} {t : Torrent} {md : Metadata}
    (hseed : t.isSeed downloaded = true) (hmd : t.info = some md) {p : Nat}
    (hp : p < md.val.numPieces) : downloaded p = true := by
  rw [isSeed, hmd, Option.any_some, Metadata.isComplete, List.all_eq_true] at hseed
  exact hseed p (List.mem_range.mpr hp)

/-- A seed without deadlines keeps its piece priorities, whatever it is sent. -/
theorem command_seed {downloaded : Nat → Bool} {t : Torrent}
    (hseed : t.isSeed downloaded = true) (hnone : t.deadlines = []) (c : TorrentCommand) :
    (t.command downloaded c).piecePriorities = t.piecePriorities ∧
      (t.command downloaded c).deadlines = [] := by
  cases hmd : t.info with
  | none => cases c <;> exact ⟨by simp [command, hmd], by simp [command, hmd, hnone]⟩
  | some md =>
      cases c with
      | setPieceDeadline piece ms =>
          have hthere : ¬ (0 ≤ piece ∧ piece < md.val.numPieces ∧
              downloaded piece.toNat = false) := by
            rintro ⟨hnonneg, hlt, hmissing⟩
            have := downloaded_of_isSeed hseed hmd (p := piece.toNat) (by omega)
            simp [this] at hmissing
          simp only [command, hmd, if_neg hthere]
          exact ⟨trivial, hnone⟩
      | clearPieceDeadlines => simp [command, hmd, hnone, lowered]
      | _ => exact ⟨by simp [command, hmd, hseed], by simp [command, hmd, hseed, hnone]⟩

theorem settle_seed {downloaded : Nat → Bool} {t : Torrent} (hseed : t.isSeed downloaded = true) :
    (t.settle downloaded).piecePriorities = t.piecePriorities.map (fun _ => priorityDefault) ∧
      (t.settle downloaded).deadlines = [] := by
  unfold settle
  rw [if_pos hseed]
  exact ⟨rfl, rfl⟩

/-- Every piece of a seed has the default priority and none a deadline. -/
theorem apply_seed {downloaded : Nat → Bool} {t : Torrent} (hseed : t.isSeed downloaded = true)
    {c : TorrentCommand} (hc : c.isPriority = true) :
    (t.apply downloaded c).piecePriorities = t.piecePriorities.map (fun _ => priorityDefault) ∧
      (t.apply downloaded c).deadlines = [] := by
  obtain ⟨hprio, hdead⟩ := settle_seed hseed
  rw [apply, if_pos hc, ← hprio]
  exact command_seed ((settle_isSeed downloaded t).trans hseed) hdead c

/-- `prioritize_pieces` for all pieces leaves none skipped if it asks for none to be. -/
theorem allWanted_prioritizePieces {downloaded : Nat → Bool} {t : Torrent} {ps : List Nat}
    (ht : t.Sized) (hlen : ps.length = t.piecePriorities.length)
    (hps : ∀ x ∈ ps, x ≠ prioritySkip) :
    (t.apply downloaded (.prioritizePieces ps)).AllWanted := by
  refine ⟨sized_apply ht (Nat.le_of_eq hlen), fun hsome x hx => ?_⟩
  rw [apply_info] at hsome
  obtain ⟨md, hmd⟩ := Option.isSome_iff_exists.mp hsome
  cases hseed : t.isSeed downloaded with
  | true =>
      rw [(apply_seed hseed rfl).1] at hx
      obtain ⟨y, -, rfl⟩ := List.mem_map.mp hx
      decide
  | false =>
      rw [piecePriorities_prioritizePieces hmd hseed hlen.ge] at hx
      exact hps x hx

theorem allWanted_withMetadata (t : Torrent) (md : Metadata) : (t.withMetadata md).AllWanted := by
  refine ⟨fun md' hmd' => ?_, fun _ x hx => ?_⟩
  · obtain rfl : md = md' := Option.some.inj hmd'
    simp [withMetadata]
  · rw [List.eq_of_mem_replicate hx]
    decide

end Torrent

end BtDownloader
