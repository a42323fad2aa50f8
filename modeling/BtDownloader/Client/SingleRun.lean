import BtDownloader.Client.Start

set_option autoImplicit false

/-! # A single run

A run that starts on a streamer without torrents has one torrent for as long as it lasts: no
method but a start adds a torrent (`Session.Under`), and libtorrent owes the metadata alert of
a torrent at most once (`Session.Single`).
-/

namespace BtDownloader

open Program

variable {m m' : Machine}

/-! ## Sessions that gain nothing -/

/-- What the methods of a streamer leave alone of a torrent. -/
def Torrent.key (t : Torrent) : Nat × Option Metadata := (t.handle, t.info)

def Alert.isMetadata : Alert → Bool
  | .metadataReceived _ => true
  | _ => false

/-- From `s` to `s'` the session gains no torrent and owes no new metadata alert. -/
structure Session.Under (s s' : Session) : Prop where
  torrents : (s'.torrents.map Torrent.key).Sublist (s.torrents.map Torrent.key)
  owed : (s'.outstanding.filter Alert.isMetadata).Sublist (s.outstanding.filter Alert.isMetadata)

namespace Session.Under

variable {s s' s'' : Session}

theorem refl (s : Session) : s.Under s := ⟨List.Sublist.refl _, List.Sublist.refl _⟩

theorem trans (h : s.Under s') (h' : s'.Under s'') : s.Under s'' :=
  ⟨h'.torrents.trans h.torrents, h'.owed.trans h.owed⟩

theorem of_eq (h : s'.torrents.map Torrent.key = s.torrents.map Torrent.key)
    (howed : s'.outstanding = s.outstanding) : s.Under s' :=
  ⟨by rw [h], by rw [howed]⟩

/-- A torrent that is still there was there before, with the same metadata. -/
theorem mem (h : s.Under s') {t' : Torrent} (ht' : t' ∈ s'.torrents) :
    ∃ t ∈ s.torrents, t.handle = t'.handle ∧ t.info = t'.info := by
  obtain ⟨t, ht, heq⟩ := List.mem_map.mp (h.torrents.subset (List.mem_map_of_mem ht'))
  exact ⟨t, ht, congrArg Prod.fst heq, congrArg Prod.snd heq⟩

theorem mem_owed (h : s.Under s') {a : Alert} (ha : a ∈ s'.outstanding)
    (hmeta : a.isMetadata = true) : a ∈ s.outstanding :=
  List.mem_of_mem_filter (h.owed.subset (List.mem_filter.mpr ⟨ha, hmeta⟩))

theorem deliver (s : Session) (a : Alert) : s.Under (s.deliver a) :=
  ⟨List.Sublist.refl _, (List.erase_sublist).filter _⟩

theorem update (s : Session) (h : Nat) (f : Torrent → Torrent) (hf : ∀ t, (f t).key = t.key) :
    s.Under (s.update h f) := by
  refine of_eq ?_ rfl
  show (s.torrents.map _).map _ = _
  rw [List.map_map]
  refine List.map_congr_left fun t _ => ?_
  by_cases ht : t.handle = h
  · simp [ht, hf]
  · simp [ht]

end Session.Under

/-! ## No method but a start adds a torrent -/

theorem under_sent (env : Env) (h : Nat) (cs : List TorrentCommand) (s : Streamer) :
    s.session.Under (s.sent env h cs).session := by
  refine .update s.session h _ fun t => ?_
  rw [Torrent.key, Torrent.applyAll_handle, Torrent.applyAll_info, Torrent.key]

theorem under_cancel {env : Env} {deleteData : Bool} {u : Unit}
    (hx : cancelStreamingAndDeleteData env deleteData m = .ok u m') :
    m.streamer.session.Under m'.streamer.session := by
  cases deleteData with
  | true =>
      obtain ⟨-, es, -, hs⟩ := cancel_deleting_ok hx
      rw [hs]
      exact ⟨List.nil_sublist _, List.nil_sublist _⟩
  | false =>
      obtain ⟨-, session, es, -, hs, -, htorrents, owed, howed, hresume⟩ := cancel_keeping_ok hx
      rw [hs]
      refine ⟨?_, ?_⟩
      · show (session.torrents.map Torrent.key).Sublist _
        rw [htorrents, List.map_map]
        exact List.Sublist.refl _
      · show (session.outstanding.filter Alert.isMetadata).Sublist _
        have hnone : owed.filter Alert.isMetadata = [] := by
          rw [List.filter_eq_nil_iff]
          intro a ha
          obtain ⟨h, rfl⟩ := hresume a ha
          exact Bool.false_ne_true
        rw [howed, List.filter_append, hnone, List.append_nil]

theorem under_prioritizeNextPieces {env : Env} {h : Nat} {u : Unit}
    (hx : prioritizeNextPieces env h m = .ok u m') :
    m.streamer.session.Under m'.streamer.session := by
  obtain ⟨next, t, ps, -, -, -, -, -, hs⟩ := prioritizeNextPieces_ok hx
  rw [hs]
  exact under_sent env h _ m.streamer

theorem under_selectFile {env : Env} {h : Nat} {u : Unit} (hx : selectFile env h m = .ok u m') :
    m.streamer.session.Under m'.streamer.session := by
  obtain ⟨t, md, i, g, es, fe, -, -, -, -, -, hs⟩ := selectFile_ok hx
  rw [hs]
  exact under_sent env h _ (m.streamer.log es)

theorem under_metadataReceivedAlert {env : Env} {h : Nat} {u : Unit}
    (hx : metadataReceivedAlert env h m = .ok u m') :
    m.streamer.session.Under m'.streamer.session := by
  obtain ⟨-, -, ⟨-, m₁, -, hs₁, hcancel⟩ | ⟨-, m₁, -, hs₁, hselect⟩⟩ := metadataReceivedAlert_ok hx
  · have hunder := under_cancel hcancel
    rw [hs₁] at hunder
    exact hunder
  · have hunder := under_selectFile hselect
    rw [hs₁] at hunder
    exact hunder

theorem under_pieceFinishedAlert {env : Env} {h : Nat} {u : Unit}
    (hx : pieceFinishedAlert env h m = .ok u m') :
    m.streamer.session.Under m'.streamer.session := by
  obtain ⟨-, n, m₁, -, hs₁, hcases⟩ := pieceFinishedAlert_ok hx
  have hsession₁ : m₁.streamer.session = m.streamer.session := by
    rw [hs₁]
    rfl
  rcases hcases with ⟨-, -, hs'⟩ | ⟨-, m₂, hnext, hagain⟩
  · rw [hs', hsession₁]
    exact .refl _
  · refine Session.Under.trans ?_ (under_prioritizeNextPieces hnext)
    rcases hagain with ⟨-, -, hs₂⟩ | ⟨-, m₃, -, hs₃, hmeta⟩
    · rw [hs₂, hsession₁]
      exact .refl _
    · have hunder := under_metadataReceivedAlert hmeta
      rwa [hs₃, hsession₁] at hunder

theorem under_removeTorrent (s : Session) (h : Nat) : s.Under (s.removeTorrent h) :=
  ⟨(List.filter_sublist).map _, List.Sublist.refl _⟩

theorem under_handleAlert {env : Env} {a : Alert} {u : Unit}
    (hx : handleAlert env a m = .ok u m') : m.streamer.session.Under m'.streamer.session := by
  cases a with
  | metadataReceived h => exact under_metadataReceivedAlert hx
  | pieceFinished h piece => exact under_pieceFinishedAlert hx
  | torrentFinished h =>
      obtain ⟨-, m₁, hprocess, -, hs'⟩ := torrentFinishedAlert_ok hx
      rw [hs', ← processTorrent_session hprocess]
      exact under_removeTorrent _ h
  | saveResumeData h =>
      obtain ⟨st, m₁, h₁, k₁⟩ := bind_eq_ok.mp hx
      obtain ⟨-, -, rfl⟩ := statusOf_eq_ok.mp h₁
      obtain ⟨-, hs'⟩ := resumeDataReadyAlertWithData_ok k₁
      rw [hs']
      exact ⟨List.nil_sublist _, List.Sublist.refl _⟩

theorem under_fastForwardTorrent {env : Env} {location length h : Nat} {r : Bool}
    (hx : fastForwardTorrent env location length h m = .ok r m') :
    m.streamer.session.Under m'.streamer.session := by
  obtain ⟨t, md, i, g, es, last, -, -, -, -, hcases⟩ := fastForwardTorrent_ok hx
  rcases hcases with ⟨-, -, hs'⟩ | ⟨-, m₁, -, hs₁, hnext⟩
  · rw [hs']
    exact .refl _
  · have hunder := under_prioritizeNextPieces hnext
    rw [hs₁] at hunder
    exact hunder

/-! ## Sessions with one torrent -/

/-- The session holds at most one torrent and owes at most one metadata alert, the alert of
that torrent when it has its metadata. -/
structure Session.Single (s : Session) : Prop where
  torrents : s.torrents.length ≤ 1
  owed : (s.outstanding.filter Alert.isMetadata).length ≤ 1
  known : ∀ t ∈ s.torrents, t.info = none → s.outstanding.filter Alert.isMetadata = []
  owner : ∀ h, .metadataReceived h ∈ s.outstanding → ∀ t ∈ s.torrents, t.handle = h

namespace Session.Single

variable {s s' : Session}

theorem under (h : s.Single) (hunder : s.Under s') : s'.Single where
  torrents := by
    have hlength := hunder.torrents.length_le
    rw [List.length_map, List.length_map] at hlength
    exact hlength.trans h.torrents
  owed := hunder.owed.length_le.trans h.owed
  known t' ht' hnone := by
    obtain ⟨t, ht, -, hinfo⟩ := hunder.mem ht'
    have hnil := h.known t ht (hinfo.trans hnone)
    exact List.sublist_nil.mp (hnil ▸ hunder.owed)
  owner n hn t' ht' := by
    obtain ⟨t, ht, hhandle, -⟩ := hunder.mem ht'
    rw [← hhandle]
    exact h.owner n (hunder.mem_owed hn rfl) t ht

/-- All torrents of the session are the same. -/
theorem eq_of_mem (h : s.Single) {t t' : Torrent} (ht : t ∈ s.torrents) (ht' : t' ∈ s.torrents) :
    t = t' := by
  have hlength := h.torrents
  cases hl : s.torrents with
  | nil => rw [hl] at ht; cases ht
  | cons t₀ ts =>
      obtain rfl : ts = [] := by
        rw [hl, List.length_cons] at hlength
        exact List.length_eq_zero_iff.mp (by omega)
      rw [hl, List.mem_singleton] at ht ht'
      rw [ht, ht']

/-- Once the metadata alert is delivered, none is owed. -/
theorem deliver_metadata (h : s.Single) {n : Nat} (hn : .metadataReceived n ∈ s.outstanding) :
    (s.deliver (.metadataReceived n)).outstanding.filter Alert.isMetadata = [] := by
  show (s.outstanding.erase _).filter _ = []
  have hlength := h.owed
  rw [← List.length_eq_zero_iff, ← List.countP_eq_length_filter, List.countP_erase]
  rw [← List.countP_eq_length_filter] at hlength
  rw [if_pos ⟨hn, rfl⟩]
  omega

end Session.Single

theorem single_metadataArrives {s : Session} (hs : s.Single) (h : Nat) (md : Metadata) :
    (s.metadataArrives h md).Single := by
  rcases Session.metadataArrives_cases s h md with heq | ⟨t, ht, hinfo, heq⟩
  · rwa [heq]
  have hnil := hs.known t (Session.find?_mem ht) hinfo
  rw [heq]
  refine ⟨?_, ?_, ?_, ?_⟩
  · show (s.torrents.map _).length ≤ 1
    rw [List.length_map]
    exact hs.torrents
  · show ((s.outstanding ++ [_]).filter _).length ≤ 1
    rw [List.filter_append, hnil]
    exact Nat.le_refl 1
  · -- the one torrent of the session has its metadata now
    intro t' ht' hnone
    obtain ⟨t₀, h₀, ⟨-, rfl⟩ | ⟨hne, rfl⟩⟩ := Session.mem_update ht'
    · cases hnone
    · exact absurd (hs.eq_of_mem h₀ (Session.find?_mem ht) ▸ Session.find?_handle ht) hne
  · intro n hn t' ht'
    have hnew : n = h := by
      rcases List.mem_append.mp hn with hn | hn
      · have hmem : Alert.metadataReceived n ∈ s.outstanding.filter Alert.isMetadata :=
          List.mem_filter.mpr ⟨hn, rfl⟩
        rw [hnil] at hmem
        cases hmem
      · simpa using hn
    obtain ⟨t₀, h₀, ⟨hhandle, rfl⟩ | ⟨-, rfl⟩⟩ := Session.mem_update ht'
    · exact hhandle.trans hnew.symm
    · rw [hs.eq_of_mem h₀ (Session.find?_mem ht), Session.find?_handle ht, hnew]

/-- The calls that start a download. -/
def Event.IsStart : Event → Prop
  | .start .. => True
  | .startMulti .. => True
  | _ => False

/-! ## The steps of a run -/

/-- Every alert that the event delivers meets the condition, in the state it finds. -/
def AlertsMeet (C : Machine → Env × Alert → Prop) (m : Machine) : Event → Prop
  | .alertsLoop batch => m.streamer.alertsLoopActive = true →
      EachBefore (fun d : Env × Alert => dispatchAlert d.1 d.2)
        (fun m d => m.streamer.session.canDeliver d.2 = true → C m d) batch m
  | _ => True

instance (C : Machine → Env × Alert → Prop) [∀ m d, Decidable (C m d)] (m : Machine) :
    ∀ e : Event, Decidable (AlertsMeet C m e)
  | .alertsLoop batch => inferInstanceAs (Decidable (m.streamer.alertsLoopActive = true →
      EachBefore (fun d : Env × Alert => dispatchAlert d.1 d.2)
        (fun m d => m.streamer.session.canDeliver d.2 = true → C m d) batch m))
  | .start .. => .isTrue trivial
  | .startMulti .. => .isTrue trivial
  | .cancel .. => .isTrue trivial
  | .fastForward .. => .isTrue trivial
  | .mainQueue => .isTrue trivial
  | .metadataArrives .. => .isTrue trivial

theorem keeps_fastForwardLoop {I : Machine → Prop} {env : Env} {location length : Nat}
    (hround : ∀ h, Keeps I (fastForwardTorrent env location length h)) (hs : List Nat) :
    Keeps I (fastForwardLoop env location length hs) := by
  intro m hm
  induction hs generalizing m with
  | nil =>
      intro r m' hx
      rw [(pure_eq_ok.mp hx).2]
      exact hm
  | cons h hs ih =>
      intro r m' hx
      obtain ⟨there, m₁, h₁, hrest⟩ := bind_eq_ok.mp hx
      have hm₁ := hround h m hm there m₁ h₁
      rcases ite_eq_ok.mp hrest with ⟨-, hstop⟩ | ⟨-, hgo⟩
      · rw [(pure_eq_ok.mp hstop).2]
        exact hm₁
      · exact ih m₁ hm₁ r m' hgo

/-- **The step rule of a single run.** What the methods keep, an alert under its condition,
every step but a start keeps. -/
theorem step_of_methods {I : Machine → Prop} {C : Machine → Env × Alert → Prop}
    (hcancel : ∀ env deleteData, Keeps I (cancelStreamingAndDeleteData env deleteData))
    (halert : ∀ (d : Env × Alert) (m m' : Machine), I m →
      (m.streamer.session.canDeliver d.2 = true → C m d) →
      dispatchAlert d.1 d.2 m = .ok () m' → I m')
    (hseek : ∀ env location length h, Keeps I (fastForwardTorrent env location length h))
    (hqueue : Keeps I runMainQueue)
    (harrives : ∀ h md, Keeps I (step (.metadataArrives h md)))
    {e : Event} {u : Unit} (he : ¬ e.IsStart) (hm : I m) (hmeets : AlertsMeet C m e)
    (hx : step e m = .ok u m') : I m' := by
  cases e with
  | start => exact absurd trivial he
  | startMulti => exact absurd trivial he
  | cancel env deleteData => exact hcancel env deleteData m hm u m' hx
  | alertsLoop batch =>
      rcases alertsLoop_ok hx with ⟨hactive, hbatch⟩ | ⟨-, rfl⟩
      · exact run_of_eachBefore halert hm (hmeets hactive) hbatch
      · exact hm
  | fastForward env location length =>
      obtain ⟨r, hloop⟩ := fastForward_ok hx
      exact keeps_fastForwardLoop (hseek env location length) _ m hm r m' hloop
  | mainQueue => exact hqueue m hm u m' hx
  | metadataArrives h md => exact harrives h md m hm u m' hx

end BtDownloader
