import BtDownloader.Client.SingleRun

set_option autoImplicit false

/-! # The window of required pieces

`prioritizeNextPieces` continues after element `MIN_PIECES - 1` of `required_pieces`. In a
single run that list is empty, a window of `MIN_PIECES` pieces cut at the end of the torrent,
or the head and the tail of the chosen file (`IsWindow`), and from this follows when the
element exists.
-/

namespace BtDownloader

open Program

variable {m m' : Machine}

/-! ## Windows -/

/-- A window is the run of pieces from `next` to its end or to the end of the torrent. -/
theorem windowFrom_eq (next : Int) (k n : Nat) :
    windowFrom next k n = piecesFrom next (min k (n - next).toNat) := by
  induction k generalizing next with
  | zero =>
      rw [Nat.zero_min]
      rfl
  | succ k ih =>
      rw [windowFrom_succ, ih]
      by_cases hlt : next < n
      · have hsucc : min (k + 1) (n - next).toNat = min k (n - (next + 1)).toNat + 1 := by omega
        rw [if_pos hlt, hsucc, piecesFrom_succ]
      · have hzero : min k (n - (next + 1)).toNat = 0 := by omega
        have hzero' : min (k + 1) (n - next).toNat = 0 := by omega
        rw [if_neg hlt, hzero, hzero']
        rfl

/-- What `required_pieces` can be when `MIN_PIECES` is `k` and the torrent has `n` pieces. -/
def IsWindow (k n : Nat) (ps : List Int) : Prop :=
  ps = [] ∨ (∃ next, ps = windowFrom next k n) ∨
    ∃ first last, ps = piecesFrom first k ++ piecesDownFrom last 10

theorem elementAt_isSome_iff {ps : List Int} {i : Int} :
    (elementAt ps i).isSome ↔ 0 ≤ i ∧ i < ps.length := by
  unfold elementAt
  split
  · rw [isSome_getElem?]
    omega
  · simp only [Option.isSome_none, Bool.false_eq_true, false_iff]
    omega

/-- **The element exists exactly when the window is not cut**, where the list starts with a
window that is to fit. -/
theorem elementAt_window {k n : Nat} {next : Int} (hne : windowFrom next k n ≠ []) :
    (elementAt (windowFrom next k n) (k - 1)).isSome ↔ next + k ≤ n := by
  rw [windowFrom_eq] at hne ⊢
  have hpos : 0 < min k (n - next).toNat := by
    rw [Nat.pos_iff_ne_zero]
    intro hzero
    rw [hzero] at hne
    exact hne rfl
  rw [elementAt_isSome_iff, length_piecesFrom]
  omega

theorem head?_window {k n : Nat} {next : Int} (hne : windowFrom next k n ≠ []) :
    (windowFrom next k n).head? = some next := by
  rw [windowFrom_eq] at hne ⊢
  cases hmin : min k (n - next).toNat with
  | zero =>
      rw [hmin] at hne
      exact absurd rfl hne
  | succ j =>
      rw [piecesFrom_succ]
      rfl

/-- Where the window from the first required piece on fits, the element exists. -/
theorem IsWindow.elementAt {k n : Nat} {ps : List Int} (hw : IsWindow k n ps) (hk : 0 < k)
    (hne : ps ≠ []) (hfits : ∀ p, ps.head? = some p → p + k ≤ n) :
    (elementAt ps (k - 1)).isSome := by
  rcases hw with rfl | ⟨next, rfl⟩ | ⟨first, last, rfl⟩
  · exact absurd rfl hne
  · exact (elementAt_window hne).mpr (hfits next (head?_window hne))
  · rw [elementAt_isSome_iff, List.length_append, length_piecesFrom]
    omega

/-! ## Where the fault comes from -/

theorem avoids_compositional :
    Compositional fun {α : Type} (x : Handler α) => Avoids Fault.requiredPieces x where
  composes := Avoids.composes _
  throw hne _ _ h := by
    cases h
    exact hne rfl
  gets _ _ _ h := nomatch h
  modifies _ _ _ h := nomatch h
  getMinPieces _ _ h := nomatch h
  getSelectedFileIndex _ _ h := nomatch h
  getShouldUserSelectFiles _ _ h := nomatch h
  setMinPieces _ _ _ h := nomatch h
  setSelectedFileIndex _ _ _ h := nomatch h
  setShouldUserSelectFiles _ _ _ h := nomatch h

theorem returns_nextRequiredPiece {next : Int} (h : m.nextPiece? = some next) :
    Returns nextRequiredPiece m := by
  unfold Machine.nextPiece? at h
  refine Returns.bind ⟨_, m, rfl⟩ fun firstPiece m₁ h₁ => ?_
  obtain ⟨rfl, hm₁⟩ := gets_eq_ok.mp h₁
  refine Returns.ite (fun _ => Returns.pure _ _) fun hfirst => ?_
  rw [if_neg hfirst] at h
  refine Returns.bind ⟨_, m₁, rfl⟩ fun required m₂ h₂ => ?_
  obtain ⟨rfl, hm₂⟩ := gets_eq_ok.mp h₂
  refine Returns.ite (fun hlength => ?_) fun _ => Returns.pure _ _
  rw [hm₁] at hlength ⊢
  rw [if_neg (List.length_pos_iff.mp hlength)] at h
  refine Returns.bind ⟨_, _, rfl⟩ fun min m₃ h₃ => ?_
  obtain ⟨rfl, hm₃⟩ := getMinPieces_eq_ok.mp h₃
  obtain ⟨piece, hpiece, -⟩ := Option.map_eq_some_iff.mp h
  rw [hm₂, hm₁]
  refine Returns.bind ⟨piece, m₃, orFault_eq_ok.mpr ⟨hpiece, rfl⟩⟩ fun _ _ _ => Returns.pure _ _

/-- `prioritizeNextPieces` stops with the fault only where it finds no element. -/
theorem prioritizeNextPieces_error {env : Env} {h : Nat}
    (hx : prioritizeNextPieces env h m = .error .requiredPieces m') : m.nextPiece? = none := by
  rw [prioritizeNextPieces_eq] at hx
  rcases bind_eq_error.mp hx with hx | ⟨next, m₁, -, hx⟩
  · cases hnext : m.nextPiece? with
    | none => rfl
    | some next =>
        obtain ⟨a, m₁, hreturns⟩ := returns_nextRequiredPiece hnext
        rw [hreturns] at hx
        cases hx
  · exact absurd hx (avoids_compositional.prioritizeFrom env h next m₁ m')

theorem nextPiece?_eq_none (h : m.nextPiece? = none) :
    m.streamer.firstPiece = -1 ∧ m.streamer.requiredPieces ≠ [] ∧
      (elementAt m.streamer.requiredPieces (m.globals.minPieces - 1)).isSome = false := by
  unfold Machine.nextPiece? at h
  by_cases hfirst : m.streamer.firstPiece ≠ -1
  · rw [if_pos hfirst] at h
    cases h
  rw [if_neg hfirst] at h
  by_cases hrequired : m.streamer.requiredPieces = []
  · rw [if_pos hrequired] at h
    cases h
  rw [if_neg hrequired, Option.map_eq_none_iff] at h
  exact ⟨not_not.mp hfirst, hrequired, by rw [h]; rfl⟩

/-- Where it finds no element, `prioritizeNextPieces` stops with the fault. -/
theorem prioritizeNextPieces_of_none {env : Env} {h : Nat} (hnone : m.nextPiece? = none) :
    ∃ m', prioritizeNextPieces env h m = .error .requiredPieces m' := by
  obtain ⟨hfirst, hne, helement⟩ := nextPiece?_eq_none hnone
  rw [Option.isSome_eq_false_iff, Option.isNone_iff_eq_none] at helement
  have hstops : nextRequiredPiece m = .error .requiredPieces
      { m with accesses := m.accesses ++ [.read .minPieces] } := by
    unfold nextRequiredPiece
    rw [bind_of_ok (show gets _ m = .ok _ m from rfl), if_neg (not_not.mpr hfirst),
      bind_of_ok (show gets _ m = .ok _ m from rfl), if_pos (List.length_pos_iff.mpr hne),
      bind_of_ok (show getMinPieces m = .ok _ _ from rfl), helement]
    rfl
  rw [prioritizeNextPieces_eq, bind_of_error hstops]
  exact ⟨_, rfl⟩

/-! ## The window of a single run -/

/-- The metadata of the torrent is not there, or has not been handled. -/
def Session.IsEarly (s : Session) : Prop :=
  s.outstanding.filter Alert.isMetadata ≠ [] ∨ ∃ t ∈ s.torrents, t.info = none

theorem Session.IsEarly.of_under {s s' : Session} (h : s'.IsEarly) (hunder : s.Under s') :
    s.IsEarly := by
  rcases h with h | ⟨t', ht', hnone⟩
  · refine Or.inl fun hnil => h ?_
    exact List.sublist_nil.mp (hnil ▸ hunder.owed)
  · obtain ⟨t, ht, -, hinfo⟩ := hunder.mem ht'
    exact Or.inr ⟨t, ht, hinfo.trans hnone⟩

/-- The invariant of a single run: before the metadata is handled nothing is required, and
afterwards `required_pieces` is a window. -/
structure Machine.Windowed (m : Machine) : Prop where
  single : m.streamer.session.Single
  nonneg : 0 ≤ m.globals.minPieces
  early : m.streamer.session.IsEarly → m.streamer.requiredPieces = [] ∧ m.globals.minPieces = 0
  window : ∀ t ∈ m.streamer.session.torrents, ∀ md, t.info = some md →
    IsWindow m.globals.minPieces.toNat md.val.numPieces m.streamer.requiredPieces

namespace Machine.Windowed

/-- What neither changes `required_pieces` nor `MIN_PIECES` keeps the invariant. -/
theorem under (h : m.Windowed) (hunder : m.streamer.session.Under m'.streamer.session)
    (hrequired : m'.streamer.requiredPieces = m.streamer.requiredPieces)
    (hmin : m'.globals.minPieces = m.globals.minPieces) : m'.Windowed where
  single := h.single.under hunder
  nonneg := by rw [hmin]; exact h.nonneg
  early hearly := by
    rw [hrequired, hmin]
    exact h.early (hearly.of_under hunder)
  window t' ht' md hmd := by
    obtain ⟨t, ht, -, hinfo⟩ := hunder.mem ht'
    rw [hrequired, hmin]
    exact h.window t ht md (hinfo.trans hmd)

/-- So does what empties `required_pieces`. -/
theorem emptied (h : m.Windowed) (hunder : m.streamer.session.Under m'.streamer.session)
    (hrequired : m'.streamer.requiredPieces = [])
    (hmin : m'.globals.minPieces = m.globals.minPieces) : m'.Windowed where
  single := h.single.under hunder
  nonneg := by rw [hmin]; exact h.nonneg
  early hearly := ⟨hrequired, hmin.trans (h.early (hearly.of_under hunder)).2⟩
  window _ _ _ _ := Or.inl hrequired

end Machine.Windowed

theorem cancel_required {env : Env} {deleteData : Bool} {u : Unit}
    (hx : cancelStreamingAndDeleteData env deleteData m = .ok u m') :
    m'.streamer.requiredPieces = [] ∧ m'.streamer.firstPiece = -1 ∧
      m'.globals.minPieces = m.globals.minPieces := by
  cases deleteData with
  | true =>
      obtain ⟨hg, es, -, hs⟩ := cancel_deleting_ok hx
      rw [hs, hg]
      exact ⟨rfl, rfl, rfl⟩
  | false =>
      obtain ⟨hg, session, es, -, hs, -⟩ := cancel_keeping_ok hx
      rw [hs, hg]
      exact ⟨rfl, rfl, rfl⟩

theorem windowed_cancel {env : Env} {deleteData : Bool} {u : Unit} (hm : m.Windowed)
    (hx : cancelStreamingAndDeleteData env deleteData m = .ok u m') : m'.Windowed := by
  obtain ⟨hrequired, -, hmin⟩ := cancel_required hx
  exact hm.emptied (under_cancel hx) hrequired hmin

/-- `prioritizeNextPieces` makes a window, whatever was required before. -/
theorem windowed_prioritizeNextPieces {env : Env} {h : Nat} {u : Unit}
    (hsingle : m.streamer.session.Single) (hnonneg : 0 ≤ m.globals.minPieces)
    (hearly : m.streamer.session.IsEarly → m.globals.minPieces = 0)
    (hx : prioritizeNextPieces env h m = .ok u m') : m'.Windowed := by
  have hunder := under_prioritizeNextPieces hx
  obtain ⟨next, t, ps, -, ht, -, -, hg, hs⟩ := prioritizeNextPieces_ok hx
  have hrequired : m'.streamer.requiredPieces =
      windowFrom next m.globals.minPieces.toNat t.numPieces := by rw [hs]
  refine ⟨hsingle.under hunder, by rw [hg]; exact hnonneg, fun hearly' => ?_, ?_⟩
  · have hzero := hearly (hearly'.of_under hunder)
    rw [hrequired, hg, hzero]
    exact ⟨windowFrom_zero _ _, rfl⟩
  · intro t' ht' md hmd
    obtain ⟨t₀, h₀, -, hinfo⟩ := hunder.mem ht'
    obtain rfl := hsingle.eq_of_mem h₀ (Session.find?_mem ht)
    have hpieces : t₀.numPieces = md.val.numPieces := by
      rw [Torrent.numPieces, hinfo.trans hmd]
      rfl
    rw [hrequired, hg, hpieces]
    exact Or.inr (Or.inl ⟨next, rfl⟩)

/-- Selecting the file for the first time requires its head and its tail. -/
theorem windowed_selectFile {env : Env} {h : Nat} {u : Unit}
    (hsingle : m.streamer.session.Single) (hlate : ¬ m.streamer.session.IsEarly)
    (hrequired : m.streamer.requiredPieces = []) (hx : selectFile env h m = .ok u m') :
    m'.Windowed := by
  have hunder := under_selectFile hx
  obtain ⟨t, md, i, g, es, fe, ht, hmd, -, -, hg, hs⟩ := selectFile_ok hx
  have hmin : m'.globals.minPieces = md.val.minPieces fe := by rw [hg]
  refine ⟨hsingle.under hunder, by rw [hmin]; exact Int.natCast_nonneg _, ?_, ?_⟩
  · exact fun hearly => absurd (hearly.of_under hunder) hlate
  · intro t' ht' md' hmd'
    have hrequired' : m'.streamer.requiredPieces = headAndTail md.val i fe := by
      rw [hs]
      show m.streamer.requiredPieces ++ _ = _
      rw [hrequired, List.nil_append]
    rw [hrequired', hmin]
    exact Or.inr (Or.inr ⟨_, _, rfl⟩)

/-- So does the first metadata alert, unless the device has no room. -/
theorem windowed_metadataReceivedAlert {env : Env} {h : Nat} {u : Unit} (hm : m.Windowed)
    (hlate : ¬ m.streamer.session.IsEarly) (hrequired : m.streamer.requiredPieces = [])
    (hx : metadataReceivedAlert env h m = .ok u m') : m'.Windowed := by
  obtain ⟨-, -, ⟨-, m₁, hg₁, hs₁, hcancel⟩ | ⟨-, m₁, hg₁, hs₁, hselect⟩⟩ :=
    metadataReceivedAlert_ok hx
  · refine windowed_cancel (hm.under ?_ ?_ (by rw [hg₁])) hcancel
    · rw [hs₁]
      exact .refl _
    · rw [hs₁]
      rfl
  · have hsession : m₁.streamer.session = m.streamer.session := by
      rw [hs₁]
      rfl
    refine windowed_selectFile ?_ ?_ ?_ hselect
    · rw [hsession]
      exact hm.single
    · rw [hsession]
      exact hlate
    · rw [hs₁]
      exact hrequired

/-- `MIN_PIECES` after a metadata alert. -/
theorem metadataReceivedAlert_minPieces {env : Env} {h : Nat} {u : Unit}
    (hx : metadataReceivedAlert env h m = .ok u m') (hnonneg : 0 ≤ m.globals.minPieces) :
    0 ≤ m'.globals.minPieces := by
  obtain ⟨-, -, ⟨-, m₁, hg₁, -, hcancel⟩ | ⟨-, m₁, -, -, hselect⟩⟩ := metadataReceivedAlert_ok hx
  · rw [(cancel_required hcancel).2.2, hg₁]
    exact hnonneg
  · obtain ⟨t, md, i, g, es, fe, -, -, -, -, hg, -⟩ := selectFile_ok hselect
    rw [hg]
    exact Int.natCast_nonneg _

theorem windowed_pieceFinishedAlert {env : Env} {h : Nat} {u : Unit} (hm : m.Windowed)
    (hlate : ¬ m.streamer.session.IsEarly) (hx : pieceFinishedAlert env h m = .ok u m') :
    m'.Windowed := by
  obtain ⟨-, n, m₁, hg₁, hs₁, hcases⟩ := pieceFinishedAlert_ok hx
  have hsession₁ : m₁.streamer.session = m.streamer.session := by
    rw [hs₁]
    rfl
  rcases hcases with ⟨-, hg', hs'⟩ | ⟨-, m₂, hnext, hagain⟩
  · refine hm.under ?_ ?_ (by rw [hg', hg₁])
    · rw [hs', hsession₁]
      exact .refl _
    · rw [hs', hs₁]
      rfl
  · have hbefore : m.streamer.session.Under m₂.streamer.session ∧ 0 ≤ m₂.globals.minPieces := by
      rcases hagain with ⟨-, hg₂, hs₂⟩ | ⟨-, m₃, hg₃, hs₃, hmeta⟩
      · rw [hs₂, hsession₁, hg₂, hg₁]
        exact ⟨.refl _, hm.nonneg⟩
      · have hunder := under_metadataReceivedAlert hmeta
        rw [hs₃, hsession₁] at hunder
        refine ⟨hunder, metadataReceivedAlert_minPieces hmeta ?_⟩
        rw [hg₃, hg₁]
        exact hm.nonneg
    obtain ⟨hunder, hnonneg⟩ := hbefore
    exact windowed_prioritizeNextPieces (hm.single.under hunder) hnonneg
      (fun hearly => absurd (hearly.of_under hunder) hlate) hnext

/-- An alert about a torrent's pieces comes after its metadata was handled. -/
theorem not_early_of_known (hs : m.streamer.session.Single) {h : Nat}
    (hknown : Session.canDeliver.known m.streamer.session h = true) {t : Torrent}
    (ht : m.streamer.session.find? h = some t) : ¬ m.streamer.session.IsEarly := by
  simp only [Session.canDeliver.known, ht, Option.all_some, Bool.and_eq_true,
    decide_eq_true_eq] at hknown
  rintro (howed | ⟨t', ht', hnone⟩)
  · -- a metadata alert that is owed is that of the one torrent
    obtain ⟨a, ha⟩ := List.exists_mem_of_ne_nil _ howed
    obtain ⟨ha, hmeta⟩ := List.mem_filter.mp ha
    cases a with
    | metadataReceived n =>
        have hn := hs.owner n ha t (Session.find?_mem ht)
        rw [Session.find?_handle ht] at hn
        exact hknown.2 (hn ▸ ha)
    | _ => cases hmeta
  · rw [hs.eq_of_mem ht' (Session.find?_mem ht)] at hnone
    rw [hnone] at hknown
    cases hknown.1

theorem Chooses.minPieces {g g' : Globals} {block? : Option SelectionBlock}
    {ti? : Option TorrentInfo} {i : Int} {es : List Effect} (h : Chooses g block? ti? i g' es) :
    g'.minPieces = g.minPieces := by
  cases h with
  | current => rfl
  | selects _ hselects => cases hselects <;> rfl

theorem windowed_fastForwardTorrent {env : Env} {location length h : Nat} {r : Bool}
    (hm : m.Windowed) (hx : fastForwardTorrent env location length h m = .ok r m') :
    m'.Windowed := by
  have hunder := under_fastForwardTorrent hx
  obtain ⟨t, md, i, g, es, last, -, -, hchooses, -, hcases⟩ := fastForwardTorrent_ok hx
  have hmin := hchooses.minPieces
  rcases hcases with ⟨-, hg', hs'⟩ | ⟨-, m₁, hg₁, hs₁, hnext⟩
  · refine hm.under hunder ?_ (by rw [hg', hmin])
    rw [hs']
    rfl
  · have hsession₁ : m₁.streamer.session = m.streamer.session := by
      rw [hs₁]
      rfl
    refine windowed_prioritizeNextPieces ?_ ?_ ?_ hnext
    · rw [hsession₁]
      exact hm.single
    · rw [hg₁, hmin]
      exact hm.nonneg
    · rw [hsession₁, hg₁, hmin]
      exact fun hearly => (hm.early hearly).2

theorem torrentFinishedAlert_required {env : Env} {h : Nat} {u : Unit}
    (hx : torrentFinishedAlert env h m = .ok u m') :
    m'.streamer.requiredPieces = m.streamer.requiredPieces ∧
      m'.globals.minPieces = m.globals.minPieces := by
  obtain ⟨-, m₁, hprocess, hg', hs'⟩ := torrentFinishedAlert_ok hx
  have hfinish : m'.streamer.requiredPieces = m₁.streamer.requiredPieces := by
    rw [hs']
    rfl
  rw [hfinish, hg']
  rcases processTorrent_ok hprocess with ⟨-, rfl⟩ | ⟨-, t, md, fe, i, es, -, -, -, hchooses, hs₁⟩
  · exact ⟨rfl, rfl⟩
  · refine ⟨?_, hchooses.minPieces⟩
    rw [hs₁]
    split <;> rfl

/-- **An alert keeps the invariant.** -/
theorem windowed_dispatchAlert {env : Env} {a : Alert} {u : Unit} (hm : m.Windowed)
    (hx : dispatchAlert env a m = .ok u m') : m'.Windowed := by
  rw [dispatchAlert_apply] at hx
  by_cases hd : m.streamer.session.canDeliver a = true
  · rw [if_pos hd] at hx
    generalize hm₁ : ({ m with streamer := m.streamer.delivers a } : Machine) = m₁ at hx
    have hsession₁ : m₁.streamer.session = m.streamer.session.deliver a := by
      rw [← hm₁]
      rfl
    have hwindowed₁ : m₁.Windowed := by
      refine hm.under ?_ ?_ ?_
      · rw [hsession₁]
        exact .deliver _ a
      · rw [← hm₁]
        rfl
      · rw [← hm₁]
    cases a with
    | metadataReceived h =>
        -- the one metadata alert that was owed is being delivered, so none is left
        have howed : Alert.metadataReceived h ∈ m.streamer.session.outstanding := by
          simpa [Session.canDeliver] using hd
        have hmem : Alert.metadataReceived h ∈
            m.streamer.session.outstanding.filter Alert.isMetadata :=
          List.mem_filter.mpr ⟨howed, rfl⟩
        have hearly : m.streamer.session.IsEarly := Or.inl (List.ne_nil_of_mem hmem)
        have hlate : ¬ m₁.streamer.session.IsEarly := by
          rw [hsession₁]
          rintro (howed' | ⟨t, ht, hnone⟩)
          · exact howed' (hm.single.deliver_metadata howed)
          · rw [hm.single.known t ht hnone] at hmem
            cases hmem
        refine windowed_metadataReceivedAlert hwindowed₁ hlate ?_ hx
        rw [← hm₁]
        exact (hm.early hearly).1
    | pieceFinished h piece =>
        -- a torrent finishes pieces only once its metadata was handled
        obtain ⟨⟨t, ht⟩, -⟩ := pieceFinishedAlert_ok hx
        rw [hsession₁] at ht
        have hlate : ¬ m.streamer.session.IsEarly := not_early_of_known hm.single hd ht
        refine windowed_pieceFinishedAlert hwindowed₁ (fun hearly => hlate ?_) hx
        exact hearly.of_under (by rw [hsession₁]; exact .deliver _ _)
    | torrentFinished h =>
        obtain ⟨hrequired, hmin⟩ := torrentFinishedAlert_required hx
        exact hwindowed₁.under (under_handleAlert hx) hrequired hmin
    | saveResumeData h =>
        have hunder := under_handleAlert hx
        obtain ⟨st, m₂, h₂, k₂⟩ := bind_eq_ok.mp hx
        obtain ⟨-, -, rfl⟩ := statusOf_eq_ok.mp h₂
        obtain ⟨hg', hs'⟩ := resumeDataReadyAlertWithData_ok k₂
        refine hwindowed₁.under hunder ?_ (by rw [hg'])
        rw [hs']
        rfl
  · rw [if_neg hd] at hx
    cases hx
    exact hm

theorem windowed_runMainQueue {u : Unit} (hm : m.Windowed) (hx : runMainQueue m = .ok u m') :
    m'.Windowed := by
  obtain ⟨hg, ⟨-, hs⟩ | ⟨b, rest, -, hs⟩⟩ := runMainQueue_ok hx
  · refine hm.under ?_ (by rw [hs]) (by rw [hg])
    rw [hs]
    exact .refl _
  · refine hm.under ?_ ?_ (by rw [hg])
    · rw [hs]
      exact .refl _
    · rw [hs]
      rfl

/-- When metadata arrives nothing is required yet. -/
theorem windowed_metadataArrives {h : Nat} {md : Metadata} {u : Unit} (hm : m.Windowed)
    (hx : step (.metadataArrives h md) m = .ok u m') : m'.Windowed := by
  simp only [step, modifies_eq_ok] at hx
  rw [hx]
  have hsingle := single_metadataArrives hm.single h md
  rcases Session.metadataArrives_cases m.streamer.session h md with heq | ⟨t, ht, hnone, -⟩
  · refine hm.under ?_ rfl rfl
    show m.streamer.session.Under (m.streamer.session.metadataArrives h md)
    rw [heq]
    exact .refl _
  · have hearly := hm.early (Or.inr ⟨t, Session.find?_mem ht, hnone⟩)
    exact ⟨hsingle, hm.nonneg, fun _ => hearly, fun _ _ _ _ => Or.inl hearly.1⟩

/-- **Every step of a run keeps the invariant.** -/
theorem windowed_step {e : Event} {u : Unit} (hm : m.Windowed) (he : ¬ e.IsStart)
    (hx : step e m = .ok u m') : m'.Windowed := by
  have hmeets : AlertsMeet (fun _ _ => True) m e := by
    cases e with
    | alertsLoop batch => exact fun _ => eachBefore_of_forall (fun _ _ _ => trivial) batch m
    | _ => trivial
  exact step_of_methods (fun _ _ _ hm _ _ hx => windowed_cancel hm hx)
    (fun _ _ _ hm _ hx => windowed_dispatchAlert hm hx)
    (fun _ _ _ _ _ hm _ _ hx => windowed_fastForwardTorrent hm hx)
    (fun _ hm _ _ hx => windowed_runMainQueue hm hx)
    (fun _ _ _ hm _ _ hx => windowed_metadataArrives hm hx) he hm hmeets hx

/-! ## The start of a run -/

theorem windowed_init (n : Nat) : (Machine.init n).Windowed where
  single := ⟨Nat.zero_le 1, Nat.zero_le 1, by simp [Machine.init, Streamer.init],
    by simp [Machine.init, Streamer.init]⟩
  nonneg := Int.le_refl 0
  early _ := ⟨rfl, rfl⟩
  window _ _ _ _ := Or.inl rfl

/-- Nothing is going on, and `MIN_PIECES` is still `0`. -/
structure Machine.Fresh (m : Machine) : Prop where
  torrents : m.streamer.session.torrents = []
  outstanding : m.streamer.session.outstanding = []
  requiredPieces : m.streamer.requiredPieces = []
  minPieces : m.globals.minPieces = 0

theorem fresh_init (n : Nat) : (Machine.init n).Fresh := ⟨rfl, rfl, rfl, rfl⟩

/-- Where nothing is required and no metadata is awaited, the invariant holds. -/
theorem windowed_of_empty (hsingle : m.streamer.session.Single)
    (hlate : ¬ m.streamer.session.IsEarly) (hnonneg : 0 ≤ m.globals.minPieces)
    (hrequired : m.streamer.requiredPieces = []) : m.Windowed :=
  ⟨hsingle, hnonneg, fun hearly => absurd hearly hlate, fun _ _ _ _ => Or.inl hrequired⟩

theorem single_of_nil {session : Session} (h : session.torrents = [])
    (howed : session.outstanding = []) : session.Single ∧ ¬ session.IsEarly := by
  refine ⟨⟨by simp [h], by simp [howed], by simp [h], by simp [h]⟩, ?_⟩
  rintro (hne | ⟨t, ht, -⟩)
  · exact hne (by rw [howed]; rfl)
  · rw [h] at ht
    cases ht

theorem Loads.minPieces {env : Env} {arg : Text} {p : AddTorrentParams × Text}
    (h : Loads env arg m m' p) (hnonneg : 0 ≤ m.globals.minPieces) :
    0 ≤ m'.globals.minPieces := by
  cases h with
  | magnet tp hmagnet hparse hm => rwa [hm]
  | file md i fe g es hfile hexists hparse hselects hfe hg hs =>
      rw [hg]
      exact Int.natCast_nonneg _

theorem Loads.requiredPieces {env : Env} {arg : Text} {p : AddTorrentParams × Text}
    (h : Loads env arg m m' p) :
    m'.streamer.requiredPieces = m.streamer.requiredPieces := by
  obtain ⟨es, hs⟩ := h.frame
  rw [hs]
  rfl

theorem windowed_failStart {env : Env} {failure : Option BlockId} {error : NSError} {u : Unit}
    (hm : m.Windowed) (hx : failStart env failure error m = .ok u m') : m'.Windowed := by
  obtain ⟨m₁, hg₁, hs₁, hcancel⟩ := failStart_ok hx
  refine windowed_cancel (hm.under ?_ ?_ (by rw [hg₁])) hcancel
  · rw [hs₁]
    exact .refl _
  · rw [hs₁]
    rfl

/-- The torrent that a start adds to an empty session. -/
theorem Adds.of_empty {tp : AddTorrentParams} {s s' : Streamer} {h : Nat}
    (hadds : Adds tp s h s') (hnone : s.session.torrents = []) :
    s'.session.torrents = [tp.torrent h] ∧ s'.session.outstanding = s.session.outstanding ∧
      s'.requiredPieces = s.requiredPieces := by
  cases hadds with
  | found t ht =>
      rw [hnone] at ht
      cases ht
  | added order hnew =>
      exact ⟨Session.insert_of_nil order _ hnone, rfl, rfl⟩

theorem windowed_addAndResume {env : Env} {arg : Text} {failure : Option BlockId}
    {tp : AddTorrentParams} {u : Unit} (hnone : m.streamer.session.torrents = [])
    (howed : m.streamer.session.outstanding = []) (hrequired : m.streamer.requiredPieces = [])
    (hnonneg : 0 ≤ m.globals.minPieces)
    (hmagnet : isMagnet arg = true → m.globals.minPieces = 0)
    (hfile : isMagnet arg = false → ∃ md, tp.info = some md)
    (hx : addAndResume env arg failure tp m = .ok u m') : m'.Windowed := by
  obtain ⟨h, s₁, m₂, m₃, hadds, -, hg₂, hs₂, hmeta, hg', hs'⟩ := addAndResume_ok hx
  obtain ⟨htorrents, houtstanding, hrequired₁⟩ := hadds.of_empty hnone
  have hsingle₁ : s₁.session.Single := by
    refine ⟨by simp [htorrents], by simp [houtstanding, howed], ?_, ?_⟩
    · intro t _ _
      rw [houtstanding, howed]
      rfl
    · intro n hn
      rw [houtstanding, howed] at hn
      cases hn
  have hunder : s₁.session.Under m₂.streamer.session := by
    rw [hs₂]
    exact under_sent env h addCommands s₁
  have hrequired₂ : m₂.streamer.requiredPieces = [] := by
    rw [hs₂]
    exact hrequired₁.trans hrequired
  -- the torrent of a torrent file has its metadata
  have hlate : isMagnet arg = false → ¬ m₂.streamer.session.IsEarly := by
    rintro hm hearly
    obtain ⟨md, hmd⟩ := hfile hm
    rcases hearly.of_under hunder with hne | ⟨t, ht, hinfo⟩
    · rw [houtstanding, howed] at hne
      exact hne rfl
    · rw [htorrents, List.mem_singleton] at ht
      rw [ht, AddTorrentParams.torrent, hmd] at hinfo
      cases hinfo
  have hwindowed₂ : m₂.Windowed := by
    refine ⟨hsingle₁.under hunder, by rw [hg₂]; exact hnonneg, fun hearly => ⟨hrequired₂, ?_⟩,
      fun _ _ _ _ => Or.inl hrequired₂⟩
    rw [hg₂]
    cases hm : isMagnet arg with
    | true => exact hmagnet hm
    | false => exact absurd hearly (hlate hm)
  have hwindowed₃ : m₃.Windowed := by
    rcases hmeta with ⟨-, rfl⟩ | ⟨hm, hmeta⟩
    · exact hwindowed₂
    · exact windowed_metadataReceivedAlert hwindowed₂ (hlate hm) hrequired₂ hmeta
  refine hwindowed₃.under ?_ ?_ (by rw [hg'])
  · rw [hs']
    exact .of_eq rfl rfl
  · rw [hs']
    rfl

/-- A start on a fresh streamer. -/
theorem windowed_start {env : Env} {arg : Text} {directoryName : Option Text}
    {progress readyToPlay failure : Option BlockId} {u : Unit} (hm : m.Fresh)
    (hx : startStreamingFromFileInDirectory env arg directoryName progress readyToPlay failure m
      = .ok u m') : m'.Windowed := by
  obtain ⟨hnone, howed, hrequired, hzero⟩ := hm
  -- up to `add_torrent` nothing is required
  have hwindowed : ∀ m₁ : Machine, m₁.streamer.session = m.streamer.session →
      m₁.streamer.requiredPieces = m.streamer.requiredPieces → 0 ≤ m₁.globals.minPieces →
      m₁.Windowed := by
    intro m₁ hsession hsame hnonneg
    have hempty := single_of_nil (hsession ▸ hnone) (hsession ▸ howed)
    exact windowed_of_empty hempty.1 hempty.2 hnonneg (hsame.trans hrequired)
  have hnonneg : 0 ≤ m.globals.minPieces := by rw [hzero]
  rcases startStreamingFromFileInDirectory_ok hx with ⟨-, -, error, hfail⟩ |
    ⟨tp, md5, m₁, hloads, -, error, path?, m₂, hg₂, hs₂, -, hfail⟩ |
    ⟨tp, md5, m₁, hloads, path, m₂, -, hg₂, hs₂, hadd⟩
  · have hwindowed₀ := hwindowed
      { m with streamer := m.streamer.acquire progress readyToPlay failure } rfl rfl hnonneg
    exact windowed_failStart hwindowed₀ hfail
  · refine windowed_failStart (hwindowed m₂ ?_ ?_ ?_) hfail
    · rw [hs₂]
      exact hloads.session
    · rw [hs₂]
      exact hloads.requiredPieces
    · rw [hg₂]
      exact hloads.minPieces hnonneg
  · have hsession : m₂.streamer.session = m.streamer.session := by
      rw [hs₂]
      exact hloads.session
    refine windowed_addAndResume (hsession ▸ hnone) (hsession ▸ howed) ?_ ?_ ?_ ?_ hadd
    · rw [hs₂]
      exact hloads.requiredPieces.trans hrequired
    · rw [hg₂]
      exact hloads.minPieces hnonneg
    · intro hmagnet
      rw [hg₂]
      cases hloads with
      | magnet tp _ hparse hm => rw [hm]; exact hzero
      | file md i fe g es hfile => rw [hfile] at hmagnet; cases hmagnet
    · exact fun hfile => (hloads.info hfile).2

/-! ## When the window goes on -/

/-- The file that is chosen when the choice has to be made now. -/
def Machine.choice? (m : Machine) (ti : TorrentInfo) : Option Int :=
  if m.globals.shouldUserSelectFiles then m.answer? ti else some (defaultFileIndex ti)

theorem Selects.choice {ti : TorrentInfo} {i : Int} {g : Globals} {es : List Effect}
    (h : Selects m.globals m.streamer.selectionBlock (some ti) i g es) :
    m.choice? ti = some i := by
  unfold Machine.choice?
  by_cases hflag : m.globals.shouldUserSelectFiles = true
  · rw [if_pos hflag]
    exact h.answer hflag
  · rw [if_neg hflag]
    rw [h.default (by simpa using hflag)]

theorem choice?_congr {ti : TorrentInfo} (hg : m'.globals = m.globals)
    (hblock : m'.streamer.selectionBlock = m.streamer.selectionBlock) :
    m'.choice? ti = m.choice? ti := by
  unfold Machine.choice? Machine.answer?
  rw [hg, hblock]

/-- After the file was selected, the element is there unless `MIN_PIECES` is `0`. -/
theorem elementAt_selectFile {ti : TorrentInfo} {i : Int} {fe : FileEntry} {ps : List Int}
    (hpos : ti.minPieces fe ≠ 0) :
    (elementAt (ps ++ headAndTail ti i fe) (ti.minPieces fe - 1)).isSome := by
  have hnonneg : 0 ≤ ti.minPieces fe := Int.natCast_nonneg _
  have hlength : (headAndTail ti i fe).length = (ti.minPieces fe).toNat + 10 := by
    simp [headAndTail, piecesDownFrom]
  rw [elementAt_isSome_iff, List.length_append, hlength]
  omega

/-- The metadata of torrent `h`, once it is there. -/
def Machine.metadata? (m : Machine) (h : Nat) : Option Metadata :=
  (m.streamer.session.find? h).bind (·.info)

/-- The piece-finished alerts after which the window goes on: where all required pieces are
there and no fast-forward has moved the window, then

* if `MIN_PIECES` is `0`, the device has no room for the download or 3% of the file that is
  chosen now are a piece at least;
* else the window of `MIN_PIECES` pieces from the first required piece on ends inside the
  torrent. -/
def Machine.GoesOn (env : Env) (h : Nat) (m : Machine) : Prop :=
  m.allPresent env h = true → m.streamer.firstPiece = -1 → ∀ md ∈ m.metadata? h,
    if m.globals.minPieces = 0 then
      env.LowSpace h ∨ ∀ i ∈ m.choice? md.val, ∀ fe ∈ md.val.fileAt i, md.val.minPieces fe ≠ 0
    else ∀ p ∈ m.streamer.requiredPieces.head?, p + m.globals.minPieces ≤ md.val.numPieces

instance (env : Env) (h : Nat) (m : Machine) : Decidable (m.GoesOn env h) :=
  inferInstanceAs (Decidable (m.allPresent env h = true → m.streamer.firstPiece = -1 →
    ∀ md ∈ m.metadata? h, if m.globals.minPieces = 0 then
        env.LowSpace h ∨ ∀ i ∈ m.choice? md.val, ∀ fe ∈ md.val.fileAt i, md.val.minPieces fe ≠ 0
      else ∀ p ∈ m.streamer.requiredPieces.head?, p + m.globals.minPieces ≤ md.val.numPieces))

/-- **Where the alert finds no element.** All required pieces are there and no fast-forward has
moved the window. With `MIN_PIECES` at `0` the file is selected again, and 3% of it are less
than a piece; else the element is not among the required pieces. -/
theorem pieceFinishedAlert_error {env : Env} {h : Nat}
    (hx : pieceFinishedAlert env h m = .error .requiredPieces m') :
    (∃ t, m.streamer.session.find? h = some t) ∧ m.allPresent env h = true ∧
      m.streamer.firstPiece = -1 ∧
      ((m.globals.minPieces = 0 ∧ ¬ env.LowSpace h ∧ ∃ md ∈ m.metadata? h, ∃ i fe,
          m.choice? md.val = some i ∧ md.val.fileAt i = some fe ∧ md.val.minPieces fe = 0) ∨
        (m.globals.minPieces ≠ 0 ∧ m.streamer.requiredPieces ≠ [] ∧
          (elementAt m.streamer.requiredPieces (m.globals.minPieces - 1)).isSome = false)) := by
  rw [pieceFinishedAlert_eq] at hx
  -- counting the required pieces and telling the progress look up no element
  rcases bind_eq_error.mp hx with hx | ⟨all, m₁, h₁, hx⟩
  · exact absurd hx (avoids_compositional.tellProgress env h m m')
  obtain ⟨⟨t, ht⟩, hall, hg₁, n, hs₁, -⟩ := tellProgress_ok h₁
  have hrequired₁ : m₁.streamer.requiredPieces = m.streamer.requiredPieces := by
    rw [hs₁]
    rfl
  have hfirst₁ : m₁.streamer.firstPiece = m.streamer.firstPiece := by
    rw [hs₁]
    rfl
  cases all with
  | false => cases hx
  | true =>
      rcases bind_eq_error.mp hx with hx | ⟨min, m₂, h₂, hx⟩
      · cases hx
      obtain ⟨rfl, hm₂⟩ := getMinPieces_eq_ok.mp h₂
      rcases bind_eq_error.mp hx with hx | ⟨_, m₃, h₃, hx⟩
      · exact absurd hx (avoids_compositional.whenever _
          (avoids_compositional.metadataReceivedAlert env h) m₂ m')
      obtain ⟨hfirst, hne, helement⟩ := nextPiece?_eq_none (prioritizeNextPieces_error hx)
      rcases whenever_eq_ok.mp h₃ with ⟨hzero, hmeta⟩ | ⟨hpos, hm₃⟩
      · -- the file is selected again
        rw [hg₁] at hzero
        obtain ⟨-, -, ⟨-, m₄, -, -, hcancel⟩ | ⟨hroom, m₄, hg₄, hs₄, hselect⟩⟩ :=
          metadataReceivedAlert_ok hmeta
        · exact absurd (cancel_required hcancel).1 hne
        obtain ⟨t', md, i, g, es, fe, ht', hmd, hselects, hfe, hg₃, hs₃⟩ := selectFile_ok hselect
        have hs₂ : m₄.streamer = m₁.streamer.needs (env.status h).totalWanted := by
          rw [hs₄, hm₂]
        have ht₄ : m₄.streamer.session.find? h = some t := by
          rw [hs₂, hs₁]
          exact ht
        obtain rfl := Option.some.inj (ht'.symm.trans ht₄)
        have hknows : md ∈ m.metadata? h := by
          rw [Machine.metadata?, ht]
          exact hmd
        have hchoice : m.choice? md.val = some i := by
          refine (choice?_congr ?_ ?_).symm.trans hselects.choice
          · rw [hg₄, hm₂, hg₁]
          · rw [hs₂, hs₁]
            rfl
        have hsame : m₃.streamer.firstPiece = m.streamer.firstPiece := by
          rw [hs₃, hs₂, hs₁]
          rfl
        -- with a MIN_PIECES above 0 the head has an element to look up
        have hmin : md.val.minPieces fe = 0 := by
          by_contra hpos
          have helement' := @elementAt_selectFile md.val i fe m₄.streamer.requiredPieces hpos
          rw [hg₃, hs₃, helement'] at helement
          cases helement
        exact ⟨⟨t', ht⟩, hall.symm, hsame ▸ hfirst,
          Or.inl ⟨hzero, hroom, md, hknows, i, fe, hchoice, hfe, hmin⟩⟩
      · -- the window is the one from before the alert
        rw [hg₁] at hpos
        have hs₃ : m₃.streamer = m₁.streamer := by rw [hm₃, hm₂]
        have hg₃ : m₃.globals = m.globals := by rw [hm₃, hm₂, hg₁]
        rw [hs₃, hfirst₁] at hfirst
        rw [hs₃, hrequired₁] at hne
        rw [hs₃, hrequired₁, hg₃] at helement
        exact ⟨⟨t, ht⟩, hall.symm, hfirst, Or.inr ⟨hpos, hne, helement⟩⟩

/-- **The window goes on.** -/
theorem pieceFinishedAlert_goesOn {env : Env} {h : Nat} (hm : m.Windowed)
    (hlate : ∀ t, m.streamer.session.find? h = some t → ¬ m.streamer.session.IsEarly)
    (hgoes : m.GoesOn env h) : pieceFinishedAlert env h m ≠ .error .requiredPieces m' := by
  intro hx
  obtain ⟨⟨t, ht⟩, hall, hfirst, hcases⟩ := pieceFinishedAlert_error hx
  rcases hcases with ⟨hzero, hroom, md, hmd, i, fe, hchoice, hfe, hmin⟩ | ⟨hpos, hne, helement⟩
  · have hcond := hgoes hall hfirst md hmd
    rw [if_pos hzero] at hcond
    exact hcond.resolve_left hroom i hchoice fe hfe hmin
  -- the metadata was handled, so it is there
  obtain ⟨md, hmd⟩ : ∃ md, t.info = some md := by
    cases hinfo : t.info with
    | none => exact absurd (Or.inr ⟨t, Session.find?_mem ht, hinfo⟩) (hlate t ht)
    | some md => exact ⟨md, rfl⟩
  have hwindow := hm.window t (Session.find?_mem ht) md hmd
  have hcond := hgoes hall hfirst md (by rw [Machine.metadata?, ht]; exact hmd)
  rw [if_neg hpos] at hcond
  have hnonneg := hm.nonneg
  have hmin : ((m.globals.minPieces.toNat : Nat) : Int) = m.globals.minPieces :=
    Int.toNat_of_nonneg hnonneg
  have hthere := hwindow.elementAt (by omega) hne (by rw [hmin]; exact hcond)
  rw [hmin, helement] at hthere
  cases hthere

/-- A fast-forward moves the window before it goes on, so it reads no required piece. -/
theorem avoids_fastForwardTorrent (env : Env) (location length h : Nat) :
    Avoids Fault.requiredPieces (fastForwardTorrent env location length h) := by
  intro m m' hx
  rw [fastForwardTorrent_eq] at hx
  rcases bind_eq_error.mp hx with hx | ⟨there, m₁, h₁, hx⟩
  · exact avoids_compositional.seek env location length h m m' hx
  obtain ⟨t, md, i, es, -, -, -, -, -, hs₁⟩ := seek_ok h₁
  have hnonneg : 0 ≤ (md.val.mapFile i.toNat location length).piece :=
    (TorrentInfo.mapFile_piece_bounds md.property i.toNat (Int.natCast_nonneg location)).1
  cases there with
  | true => cases hx
  | false =>
      rcases bind_eq_error.mp hx with hx | ⟨_, m₂, h₂, hx⟩
      · cases hx
      rcases bind_eq_error.mp hx with hx | ⟨_, m₃, -, hx⟩
      · have hfirst := (nextPiece?_eq_none (prioritizeNextPieces_error hx)).1
        have hs₂ : m₂.streamer.firstPiece = m₁.streamer.firstPiece := by
          rw [modifies_eq_ok.mp h₂]
        rw [hs₂, hs₁] at hfirst
        have hstart : (md.val.mapFile i.toNat location length).piece = -1 := hfirst
        omega
      · cases hx

/-- The condition of an alert: a piece-finished alert lets the window go on. -/
def AlertGoesOn (m : Machine) (d : Env × Alert) : Prop :=
  match d.2 with
  | .pieceFinished h _ => m.GoesOn d.1 h
  | _ => True

instance (m : Machine) (d : Env × Alert) : Decidable (AlertGoesOn m d) :=
  match d with
  | (env, .pieceFinished h _) => inferInstanceAs (Decidable (m.GoesOn env h))
  | (_, .metadataReceived _) => .isTrue trivial
  | (_, .torrentFinished _) => .isTrue trivial
  | (_, .saveResumeData _) => .isTrue trivial

theorem dispatchAlert_goesOn {d : Env × Alert} (hm : m.Windowed)
    (hgoes : m.streamer.session.canDeliver d.2 = true → AlertGoesOn m d) :
    dispatchAlert d.1 d.2 m ≠ .error .requiredPieces m' := by
  obtain ⟨env, a⟩ := d
  intro hx
  cases a with
  | pieceFinished h piece =>
      rw [dispatchAlert_apply] at hx
      by_cases hd : m.streamer.session.canDeliver (.pieceFinished h piece) = true
      · rw [if_pos hd] at hx
        have hunder : m.streamer.session.Under
            (m.streamer.session.deliver (.pieceFinished h piece)) := .deliver _ _
        have hwindowed : Machine.Windowed
            { m with streamer := m.streamer.delivers (.pieceFinished h piece) } :=
          hm.under hunder rfl rfl
        refine pieceFinishedAlert_goesOn hwindowed (fun t ht hearly => ?_) (hgoes hd) hx
        exact not_early_of_known hm.single hd ht (hearly.of_under hunder)
      · rw [if_neg hd] at hx
        cases hx
  | metadataReceived h =>
      exact avoids_compositional.dispatchAlert env _ (fun _ _ h => by cases h) m m' hx
  | torrentFinished h =>
      exact avoids_compositional.dispatchAlert env _ (fun _ _ h => by cases h) m m' hx
  | saveResumeData h =>
      exact avoids_compositional.dispatchAlert env _ (fun _ _ h => by cases h) m m' hx

/-- **No step stops because a required piece is missing from the list.** -/
theorem step_goesOn {e : Event} (hm : m.Windowed) (hgoes : AlertsMeet AlertGoesOn m e) :
    step e m ≠ .error .requiredPieces m' := by
  intro hx
  cases e with
  | alertsLoop batch =>
      rcases bind_eq_error.mp hx with hx | ⟨active, m₁, h₁, hx⟩
      · cases hx
      obtain ⟨rfl, rfl⟩ := gets_eq_ok.mp h₁
      by_cases hactive : m₁.streamer.alertsLoopActive = true
      · rw [if_pos hactive] at hx
        refine not_error_of_eachBefore ?_ ?_ hm (hgoes hactive) m' hx
        · exact fun d m m' hm _ hx => windowed_dispatchAlert hm hx
        · exact fun d m m' hm hgoes => dispatchAlert_goesOn hm hgoes
      · rw [if_neg hactive] at hx
        cases hx
  | fastForward env location length =>
      have hround := avoids_fastForwardTorrent env location length
      refine avoids_compositional.bind ?_ (fun _ => avoids_compositional.pure _) m m' hx
      exact avoids_compositional.fastForwardTorrentForRange env location length hround
  -- no other event looks up an element of required_pieces
  | start env arg progress readyToPlay failure =>
      exact avoids_compositional.startStreamingFromFileInDirectory _ _ _ _ _ _ m m' hx
  | startMulti env arg progress readyToPlay failure callback =>
      exact avoids_compositional.startStreamingFromMultiTorrentFile _ _ _ _ _ _ m m' hx
  | cancel env deleteData =>
      exact avoids_compositional.cancelStreamingAndDeleteData env deleteData m m' hx
  | mainQueue => exact avoids_compositional.runMainQueue m m' hx
  | metadataArrives h md => cases hx

/-- The first step of a run makes it single. -/
theorem windowed_of_isStart {e : Event} {n : Nat} {u : Unit} (he : e.IsStart)
    (hx : step e (Machine.init n) = .ok u m') : m'.Windowed := by
  cases e with
  | start env arg progress readyToPlay failure => exact windowed_start (fresh_init n) hx
  | startMulti env arg progress readyToPlay failure callback =>
      obtain ⟨m₁, hg₁, hs₁, hstart⟩ := startMulti_ok hx
      refine windowed_start ⟨?_, ?_, ?_, ?_⟩ hstart
      · rw [hs₁]
        rfl
      · rw [hs₁]
        rfl
      · rw [hs₁]
        rfl
      · rw [hg₁]
        rfl
  | _ => exact he.elim

/-- **The window always goes on**: in a single run whose piece-finished alerts all meet the
condition, the element that `prioritizeNextPieces` reads is there each time. -/
theorem run_goesOn {n : Nat} {e : Event} {es : List Event} (he : e.IsStart)
    (hes : ∀ e' ∈ es, ¬ e'.IsStart)
    (hgoes : EachBefore step (AlertsMeet AlertGoesOn) (e :: es) (Machine.init n)) :
    ∀ m, run (e :: es) (Machine.init n) ≠ .error .requiredPieces m := by
  intro m hrun
  rcases bind_eq_error.mp hrun with hx | ⟨_, m₁, hx, hrun⟩
  · exact step_goesOn (windowed_init n) (eachBefore_cons.mp hgoes).1 hx
  have hrest := ((eachBefore_cons.mp hgoes).2 m₁ hx).and hes
  refine not_error_of_eachBefore ?_ ?_ (windowed_of_isStart he hx) hrest m hrun
  · exact fun e' m m' hm he' hx => windowed_step hm he'.1 hx
  · exact fun e' m m' hm he' => step_goesOn hm he'.2

/-- A start of a torrent file with one file, and then a piece-finished alert that finds
everything downloaded. -/
def startAndFinishPiece (size : Nat) : List Event :=
  let env := Env.calm (Metadata.films 1 size []) fun _ => true
  [.start env "a.torrent".toList none none none, .alertsLoop [(env, .pieceFinished 0 0)]]

/-- The fault a run of a newly initialised streamer stops with. -/
def faultOf (es : List Event) : Option Fault :=
  match run es (Machine.init 0) with
  | .ok _ _ => none
  | .error fault _ => some fault

/-- A file of ten pieces: 3% of it are no piece, and the element `-1` is read. -/
theorem not_goesOn_tenPieces :
    ∃ m, run (startAndFinishPiece 10) (Machine.init 0) = .error .requiredPieces m := by
  have hfault : faultOf (startAndFinishPiece 10) = some .requiredPieces := by decide +kernel
  unfold faultOf at hfault
  cases hrun : run (startAndFinishPiece 10) (Machine.init 0) with
  | ok u m =>
      rw [hrun] at hfault
      cases hfault
  | error fault m =>
      rw [hrun] at hfault
      cases hfault
      exact ⟨m, rfl⟩

/-- A file of forty pieces, of which 3% are one piece. -/
theorem goesOn_fortyPieces :
    ¬ ∃ m, run (startAndFinishPiece 40) (Machine.init 0) = .error .requiredPieces m := by
  rintro ⟨m, hrun⟩
  revert hrun
  refine run_goesOn ?_ ?_ (by decide +kernel) m
  · trivial
  · simp [Event.IsStart]

end BtDownloader
