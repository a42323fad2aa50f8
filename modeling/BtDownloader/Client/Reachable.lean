import BtDownloader.Client.Outcome.Start
import BtDownloader.Torrent.Priorities

set_option autoImplicit false

/-! # What holds in every reachable state

`Streamer.Sound` is kept by every step of a streamer, whatever the history: no two torrents
of its session are the same object, no piece of any of them is skipped, and a streamer
without a save path has no torrent.
-/

namespace BtDownloader

open Program

/-! ## Batches of commands -/

/-- The command can only raise priorities from `LIBTORRENT_PRIORITY_SKIP`. -/
def TorrentCommand.Raises : TorrentCommand → Prop
  | .prioritizeFiles _ => False
  | .prioritizePieces _ => False
  | .piecePriority _ priority => priority ≠ prioritySkip
  | _ => True

theorem Torrent.allWanted_applyAll {downloaded : Nat → Bool} {t : Torrent}
    {cs : List TorrentCommand} (ht : t.AllWanted) (hcs : ∀ c ∈ cs, c.Raises) :
    (t.applyAll downloaded cs).AllWanted := by
  induction cs generalizing t with
  | nil => exact ht
  | cons c cs ih =>
      have hc := hcs c (by simp)
      refine ih (allWanted_apply ht ?_) fun c' hc' => hcs c' (by simp [hc'])
      cases c with
      | prioritizeFiles ps => exact hc.elim
      | prioritizePieces ps => exact hc.elim
      | _ => exact hc

theorem raises_deadlineCommands (w : List Int) : ∀ c ∈ deadlineCommands w, c.Raises := by
  intro c hc
  obtain ⟨p, -, rfl⟩ := List.mem_map.mp hc
  trivial

theorem raises_raiseCommands (ps : List Int) : ∀ c ∈ raiseCommands ps, c.Raises := by
  intro c hc
  obtain ⟨p, -, hc⟩ := List.mem_flatMap.mp hc
  rcases List.mem_pair.mp hc with rfl | rfl
  · show priorityMaximum ≠ prioritySkip
    decide
  · trivial

/-- The commands of `prioritizeNextPieces` leave no piece skipped. -/
theorem Torrent.allWanted_window {downloaded : Nat → Bool} {t : Torrent} {w : List Int}
    {ps : List Nat} (ht : t.AllWanted) (hlen : ps.length = t.piecePriorities.length)
    (hps : ∀ x ∈ ps, x = priorityLow ∨ x = priorityMaximum) :
    (t.applyAll downloaded
      (.clearPieceDeadlines :: deadlineCommands w ++ [.prioritizePieces ps])).AllWanted := by
  rw [applyAll_append]
  have ht' : (t.applyAll downloaded (.clearPieceDeadlines :: deadlineCommands w)).AllWanted := by
    refine allWanted_applyAll ht fun c hc => ?_
    rcases List.mem_cons.mp hc with rfl | hc
    · trivial
    · exact raises_deadlineCommands w c hc
  rw [applyAll_singleton]
  cases hinfo : t.info with
  | none =>
      refine allWanted_of_none ?_
      rw [apply_info, applyAll_info, hinfo]
  | some md =>
      have hinfo' := (applyAll_info downloaded t (.clearPieceDeadlines :: deadlineCommands w)).trans
        hinfo
      refine allWanted_prioritizePieces ht'.1 ?_ fun x hx => ?_
      · rw [ht'.1 md hinfo', hlen, ht.1 md hinfo]
      · rcases hps x hx with rfl | rfl <;> decide

/-- The commands of `metadataReceivedAlert` leave no piece skipped: `prioritize_pieces` sets
the ones that `prioritize_files` skipped. -/
theorem Torrent.allWanted_select {downloaded : Nat → Bool} {t : Torrent}
    {n k : Nat} {i : Int} {required : List Int} (ht : t.AllWanted)
    (hk : k = (t.applyAll downloaded [.prioritizeFiles (onlyFile n i),
      .clearPieceDeadlines]).piecePriorities.length) :
    (t.applyAll downloaded (selectCommands n k i required)).AllWanted := by
  have hsized₁ : (t.apply downloaded (.prioritizeFiles (onlyFile n i))).Sized :=
    sized_apply ht.1 trivial
  have hsized₂ : ((t.apply downloaded (.prioritizeFiles (onlyFile n i))).apply downloaded
      .clearPieceDeadlines).Sized := sized_apply hsized₁ trivial
  have hsplit : selectCommands n k i required = .prioritizeFiles (onlyFile n i) ::
      .clearPieceDeadlines :: .prioritizePieces (List.replicate k priorityLow) ::
        raiseCommands required := rfl
  rw [hsplit, applyAll_cons, applyAll_cons, applyAll_cons]
  rw [applyAll_cons, applyAll_singleton] at hk
  refine allWanted_applyAll ?_ (raises_raiseCommands required)
  refine allWanted_prioritizePieces hsized₂ (by rw [List.length_replicate, hk]) fun x hx => ?_
  rw [List.eq_of_mem_replicate hx]
  decide

/-! ## Sound streamers -/

/-- The invariant of every history. -/
structure Streamer.Sound (s : Streamer) : Prop where
  distinct : (s.session.torrents.map (·.handle)).Nodup
  handle_lt : ∀ t ∈ s.session.torrents, t.handle < s.session.nextHandle
  wanted : ∀ t ∈ s.session.torrents, t.AllWanted
  saved : s.savePath = none → s.session.torrents = []

/-- The states a streamer can get into. -/
def Reachable (m : Machine) : Prop := ∃ n es, run es (Machine.init n) = .ok () m

namespace Streamer.Sound

variable {s s' : Streamer}

theorem of_eq (h : s.Sound) (hsession : s'.session = s.session)
    (hpath : s'.savePath = s.savePath) : s'.Sound := by
  obtain ⟨h₁, h₂, h₃, h₄⟩ := h
  exact ⟨by rwa [hsession], by rwa [hsession], by rwa [hsession], by rwa [hsession, hpath]⟩

theorem find?_of_mem (h : s.Sound) {t : Torrent} (ht : t ∈ s.session.torrents) :
    s.session.find? t.handle = some t := by
  have hsome : ∃ t', s.session.find? t.handle = some t' := by
    rw [← Option.isSome_iff_exists, Session.find?, List.find?_isSome]
    exact ⟨t, ht, by simp⟩
  obtain ⟨t', ht'⟩ := hsome
  rw [ht', List.inj_on_of_nodup_map h.distinct (Session.find?_mem ht') ht
    (Session.find?_handle ht')]

theorem hasMetadata_of_mem (h : s.Sound) {t : Torrent} (ht : t ∈ s.session.torrents) :
    s.session.hasMetadata t.handle = t.info.isSome := by
  rw [Session.hasMetadata, h.find?_of_mem ht, Option.any_some]

/-- A streamer that holds a torrent has a save path. -/
theorem isSome_savePath (hs : s.Sound) {h : Nat} {t : Torrent}
    (ht : s.session.find? h = some t) : s.savePath.isSome := by
  rw [Option.isSome_iff_ne_none]
  intro hnone
  rw [find?_eq_none (hs.saved hnone)] at ht
  cases ht

theorem sent {env : Env} {h : Nat} {cs : List TorrentCommand} (hs : s.Sound)
    (hcs : ∀ t, s.session.find? h = some t → t.AllWanted →
      (t.applyAll (env.downloaded h) cs).AllWanted) : (s.sent env h cs).Sound where
  distinct := by
    rw [handles_sent]
    exact hs.distinct
  handle_lt t ht := by
    obtain ⟨t₀, h₀, ⟨-, rfl⟩ | ⟨-, rfl⟩⟩ := Session.mem_update ht
    · rw [Torrent.applyAll_handle]
      exact hs.handle_lt t₀ h₀
    · exact hs.handle_lt t h₀
  wanted t ht := by
    obtain ⟨t₀, h₀, ⟨rfl, rfl⟩ | ⟨-, rfl⟩⟩ := Session.mem_update ht
    · exact hcs t₀ (hs.find?_of_mem h₀) (hs.wanted t₀ h₀)
    · exact hs.wanted t h₀
  saved hpath := by
    show s.session.torrents.map _ = []
    rw [hs.saved hpath, List.map_nil]

/-- Torrents may go, and be paused. -/
theorem of_torrents (hs : s.Sound) (hnext : s'.session.nextHandle = s.session.nextHandle)
    (hsub : (s'.session.torrents.map Torrent.pause).Sublist
      (s.session.torrents.map Torrent.pause))
    (hpath : s'.savePath = none → s.savePath = none ∨ s'.session.torrents = []) :
    s'.Sound := by
  -- each torrent is one of before, up to whether it is paused
  have hmem : ∀ t ∈ s'.session.torrents, ∃ t₀ ∈ s.session.torrents, t₀.pause = t.pause := by
    intro t ht
    obtain ⟨t₀, h₀, heq⟩ := List.mem_map.mp (hsub.subset (List.mem_map_of_mem ht))
    exact ⟨t₀, h₀, heq⟩
  have hpause : ∀ l : List Torrent, l.map (·.handle) = (l.map Torrent.pause).map (·.handle) := by
    intro l
    rw [List.map_map]
    rfl
  refine ⟨?_, fun t ht => ?_, fun t ht => ?_, fun h => ?_⟩
  · rw [hpause]
    exact List.Nodup.sublist (hsub.map _) (hpause s.session.torrents ▸ hs.distinct)
  · obtain ⟨t₀, h₀, heq⟩ := hmem t ht
    have hhandle : t.handle = t₀.handle := (congrArg Torrent.handle heq).symm
    rw [hnext, hhandle]
    exact hs.handle_lt t₀ h₀
  · obtain ⟨t₀, h₀, heq⟩ := hmem t ht
    have hwant := hs.wanted t₀ h₀
    have hinfo : t.info = t₀.info := (congrArg Torrent.info heq).symm
    have hprio : t.piecePriorities = t₀.piecePriorities :=
      (congrArg Torrent.piecePriorities heq).symm
    exact ⟨fun md hmd => by rw [hprio]; exact hwant.1 md (hinfo ▸ hmd),
      fun hsome => by rw [hprio]; exact hwant.2 (hinfo ▸ hsome)⟩
  · rcases hpath h with h | h
    · have hnil := hs.saved h
      rw [hnil, List.map_nil, List.sublist_nil, List.map_eq_nil_iff] at hsub
      exact hsub
    · exact h

/-- Only the folder is another one. -/
theorem of_session (hs : s.Sound) (hsession : s'.session = s.session)
    (hpath : s'.savePath.isSome) : s'.Sound := by
  refine hs.of_torrents (by rw [hsession]) (by rw [hsession]) fun hnone => ?_
  rw [hnone] at hpath
  cases hpath

theorem added (hs : s.Sound) {order : MapOrder} {t : Torrent} {es : List Effect}
    (hhandle : t.handle = s.session.nextHandle) (ht : t.AllWanted) (hpath : s.savePath.isSome) :
    (s.withSession (s.session.insert order t) es).Sound where
  distinct := by
    have hperm := (order.perm (t :: s.session.torrents)).map (·.handle)
    refine hperm.nodup_iff.mpr ?_
    rw [List.map_cons, List.nodup_cons]
    refine ⟨fun hmem => ?_, hs.distinct⟩
    obtain ⟨t₀, h₀, heq⟩ := List.mem_map.mp hmem
    have := hs.handle_lt t₀ h₀
    omega
  handle_lt t₀ h₀ := by
    show t₀.handle < s.session.nextHandle + 1
    rcases Session.mem_insert.mp h₀ with rfl | h₀
    · omega
    · have := hs.handle_lt t₀ h₀
      omega
  wanted t₀ h₀ := by
    rcases Session.mem_insert.mp h₀ with rfl | h₀
    · exact ht
    · exact hs.wanted t₀ h₀
  saved hnone := by
    rw [show s.savePath = none from hnone] at hpath
    cases hpath

end Streamer.Sound

theorem sound_init (n : Nat) : (Streamer.init n).Sound := by
  refine ⟨?_, ?_, ?_, ?_⟩ <;> simp [Streamer.init]

/-! ## Every handler keeps streamers sound -/

variable {m m' : Machine}

theorem sound_cancel {env : Env} {deleteData : Bool} {u : Unit} (hs : m.streamer.Sound)
    (hx : cancelStreamingAndDeleteData env deleteData m = .ok u m') : m'.streamer.Sound := by
  cases deleteData with
  | false =>
      obtain ⟨-, session, es, -, hs', hnext, htorrents, -⟩ := cancel_keeping_ok hx
      have hsession : m'.streamer.session = session := by rw [hs']; rfl
      have hpath : m'.streamer.savePath = m.streamer.savePath := by rw [hs']; rfl
      refine hs.of_torrents (by rw [hsession, hnext]) ?_ fun h => Or.inl (by rwa [← hpath])
      rw [hsession, htorrents, List.map_map]
      exact List.Sublist.refl _
  | true =>
      obtain ⟨-, es, -, hs'⟩ := cancel_deleting_ok hx
      refine hs.of_torrents (by rw [hs']; rfl) ?_ fun _ => Or.inr (by rw [hs']; rfl)
      rw [hs']
      exact List.nil_sublist _

theorem sound_prioritizeNextPieces {env : Env} {h : Nat} {u : Unit} (hs : m.streamer.Sound)
    (hx : prioritizeNextPieces env h m = .ok u m') : m'.streamer.Sound := by
  obtain ⟨next, t, ps, -, ht, hlen, hps, -, hs'⟩ := prioritizeNextPieces_ok hx
  rw [hs']
  refine Streamer.Sound.of_eq (hs.sent fun t' ht' hwant => ?_) rfl rfl
  obtain rfl : t' = t := Option.some.inj (ht'.symm.trans ht)
  refine Torrent.allWanted_window hwant hlen fun x hx => ?_
  rw [hps] at hx
  exact mem_raised_low hx

theorem sound_selectFile {env : Env} {h : Nat} {u : Unit} (hs : m.streamer.Sound)
    (hx : selectFile env h m = .ok u m') : m'.streamer.Sound := by
  obtain ⟨t, md, i, g, es, fe, ht, hmd, -, -, -, hs'⟩ := selectFile_ok hx
  rw [hs']
  have hlog : (m.streamer.log es).Sound := hs.of_eq rfl rfl
  refine Streamer.Sound.of_eq (hlog.sent fun t' ht' hwant => ?_) rfl rfl
  obtain rfl : t' = t := Option.some.inj (ht'.symm.trans ht)
  exact Torrent.allWanted_select hwant rfl

theorem sound_metadataReceivedAlert {env : Env} {h : Nat} {u : Unit} (hs : m.streamer.Sound)
    (hx : metadataReceivedAlert env h m = .ok u m') : m'.streamer.Sound := by
  obtain ⟨-, -, ⟨-, m₁, -, hs₁, hcancel⟩ | ⟨-, m₁, -, hs₁, hselect⟩⟩ :=
    metadataReceivedAlert_ok hx
  · exact sound_cancel (by rw [hs₁]; exact hs.of_eq rfl rfl) hcancel
  · exact sound_selectFile (by rw [hs₁]; exact hs.of_eq rfl rfl) hselect

theorem sound_pieceFinishedAlert {env : Env} {h : Nat} {u : Unit} (hs : m.streamer.Sound)
    (hx : pieceFinishedAlert env h m = .ok u m') : m'.streamer.Sound := by
  obtain ⟨-, n, m₁, -, hs₁, ⟨-, -, hs'⟩ | ⟨-, m₂, hnext, hagain⟩⟩ := pieceFinishedAlert_ok hx
  · rw [hs', hs₁]
    exact hs.of_eq rfl rfl
  · have hsound₁ : m₁.streamer.Sound := by
      rw [hs₁]
      exact hs.of_eq rfl rfl
    refine sound_prioritizeNextPieces ?_ hnext
    rcases hagain with ⟨-, -, hs₂⟩ | ⟨-, m₃, -, hs₃, hmeta⟩
    · rwa [hs₂]
    · exact sound_metadataReceivedAlert (by rwa [hs₃]) hmeta

theorem sound_processTorrent {env : Env} {h : Nat} {u : Unit} (hs : m.streamer.Sound)
    (hx : processTorrent env h m = .ok u m') : m'.streamer.Sound := by
  rcases processTorrent_ok hx with ⟨-, rfl⟩ | ⟨-, t, md, fe, i, es, -, -, -, -, hs'⟩
  · exact hs
  · rw [hs']
    split <;> exact hs.of_eq rfl rfl

theorem sound_torrentFinishedAlert {env : Env} {h : Nat} {u : Unit} (hs : m.streamer.Sound)
    (hx : torrentFinishedAlert env h m = .ok u m') : m'.streamer.Sound := by
  obtain ⟨-, m₁, hprocess, -, hs'⟩ := torrentFinishedAlert_ok hx
  refine (sound_processTorrent hs hprocess).of_torrents (by rw [hs']; rfl) ?_ fun hnone => ?_
  · rw [hs']
    exact List.filter_sublist.map _
  · rw [hs'] at hnone
    exact Or.inl hnone

theorem sound_resumeDataReadyAlertWithData {h : Nat} {u : Unit} (hs : m.streamer.Sound)
    (hx : resumeDataReadyAlertWithData h m = .ok u m') : m'.streamer.Sound := by
  obtain ⟨-, hs'⟩ := resumeDataReadyAlertWithData_ok hx
  refine hs.of_torrents (by rw [hs']; rfl) ?_ fun _ => Or.inr (by rw [hs']; rfl)
  rw [hs']
  exact List.nil_sublist _

theorem sound_handleAlert {env : Env} {a : Alert} {u : Unit} (hs : m.streamer.Sound)
    (hx : handleAlert env a m = .ok u m') : m'.streamer.Sound := by
  cases a with
  | metadataReceived h => exact sound_metadataReceivedAlert hs hx
  | pieceFinished h piece => exact sound_pieceFinishedAlert hs hx
  | torrentFinished h => exact sound_torrentFinishedAlert hs hx
  | saveResumeData h =>
      obtain ⟨st, m₁, h₁, k₁⟩ := bind_eq_ok.mp hx
      obtain ⟨-, -, rfl⟩ := statusOf_eq_ok.mp h₁
      exact sound_resumeDataReadyAlertWithData hs k₁

theorem sound_dispatchAlert {env : Env} {a : Alert} {u : Unit} (hs : m.streamer.Sound)
    (hx : dispatchAlert env a m = .ok u m') : m'.streamer.Sound := by
  rw [dispatchAlert_apply] at hx
  split at hx
  · have hdelivers : (m.streamer.delivers a).Sound :=
      hs.of_torrents rfl (List.Sublist.refl _) fun hnone => Or.inl hnone
    exact sound_handleAlert (by exact hdelivers) hx
  · cases hx
    exact hs

theorem sound_failStart {env : Env} {failure : Option BlockId} {error : NSError} {u : Unit}
    (hs : m.streamer.Sound) (hx : failStart env failure error m = .ok u m') :
    m'.streamer.Sound := by
  obtain ⟨m₁, -, hs₁, hcancel⟩ := failStart_ok hx
  exact sound_cancel (by rw [hs₁]; exact hs.of_eq rfl rfl) hcancel

theorem Torrent.allWanted_of_params (tp : AddTorrentParams) (h : Nat) :
    (tp.torrent h).AllWanted := by
  unfold AddTorrentParams.torrent
  cases tp.info with
  | none => exact Torrent.allWanted_of_none rfl
  | some md => exact Torrent.allWanted_withMetadata _ md

theorem AddTorrentParams.torrent_handle (tp : AddTorrentParams) (h : Nat) :
    (tp.torrent h).handle = h := by
  unfold AddTorrentParams.torrent
  cases tp.info <;> rfl

theorem AddTorrentParams.torrent_info (tp : AddTorrentParams) (h : Nat) :
    (tp.torrent h).info = tp.info := by
  unfold AddTorrentParams.torrent
  cases tp.info <;> rfl

theorem raises_addCommands : ∀ c ∈ addCommands, c.Raises := by
  intro c hc
  simp only [addCommands, List.mem_cons, List.not_mem_nil, or_false] at hc
  rcases hc with rfl | rfl | rfl <;> trivial

theorem Adds.sound_added {tp : AddTorrentParams} {s s₁ : Streamer} {h : Nat}
    (hadds : Adds tp s h s₁) (hs : s.Sound) (hpath : s.savePath.isSome) : s₁.Sound := by
  cases hadds with
  | found t ht => exact hs.of_eq rfl rfl
  | added order hnew =>
      exact hs.added (AddTorrentParams.torrent_handle _ _) (Torrent.allWanted_of_params _ _) hpath

/-- A torrent that was added or found, and told how to download. -/
theorem Adds.sound {tp : AddTorrentParams} {s s₁ : Streamer} {h : Nat} {env : Env}
    (hadds : Adds tp s h s₁) (hs : s.Sound) (hpath : s.savePath.isSome) :
    (s₁.sent env h addCommands).Sound :=
  (hadds.sound_added hs hpath).sent fun _ _ hwant =>
    Torrent.allWanted_applyAll hwant raises_addCommands

theorem sound_addAndResume {env : Env} {arg : Text} {failure : Option BlockId}
    {tp : AddTorrentParams} {u : Unit} (hs : m.streamer.Sound) (hpath : m.streamer.savePath.isSome)
    (hx : addAndResume env arg failure tp m = .ok u m') : m'.streamer.Sound := by
  obtain ⟨h, s₁, m₂, m₃, hadds, -, -, hs₂, hmeta, -, hs'⟩ := addAndResume_ok hx
  have hsound₂ : m₂.streamer.Sound := by
    rw [hs₂]
    exact hadds.sound hs hpath
  have hsound₃ : m₃.streamer.Sound := by
    rcases hmeta with ⟨-, rfl⟩ | ⟨-, hmeta⟩
    · exact hsound₂
    · exact sound_metadataReceivedAlert hsound₂ hmeta
  rw [hs']
  exact hsound₃.of_torrents rfl (List.Sublist.refl _) fun hnone => Or.inl hnone

theorem Loads.frame {env : Env} {arg : Text} {p : AddTorrentParams × Text}
    (h : Loads env arg m m' p) : ∃ es, m'.streamer = m.streamer.log es := by
  cases h with
  | magnet tp hmagnet hparse hm => exact ⟨[], by rw [hm, log_nil]⟩
  | file md i fe g es hfile hexists hparse hselects hfe hg hs => exact ⟨es, hs⟩

theorem sound_start {env : Env} {arg : Text} {directoryName : Option Text}
    {progress readyToPlay failure : Option BlockId} {u : Unit} (hs : m.streamer.Sound)
    (hx : startStreamingFromFileInDirectory env arg directoryName progress readyToPlay failure m
      = .ok u m') : m'.streamer.Sound := by
  have hacquire : (m.streamer.acquire progress readyToPlay failure).Sound := hs.of_eq rfl rfl
  have hopen : ∀ {m₁ m₂ : Machine} {p : AddTorrentParams × Text} {path? : Option Text},
      Loads env arg { m with streamer := m.streamer.acquire progress readyToPlay failure } m₁ p →
      m₂.streamer = { m₁.streamer with savePath := path? } →
      (path? = m.streamer.savePath ∨ path?.isSome) → m₂.streamer.Sound := by
    intro m₁ m₂ p path? hloads hs₂ hpath
    obtain ⟨es, hs₁⟩ := hloads.frame
    rw [hs₂, hs₁]
    refine hs.of_torrents rfl (List.Sublist.refl _) fun hnone => Or.inl ?_
    rcases hpath with hpath | hpath
    · rw [← hpath]
      exact hnone
    · rw [show path? = none from hnone] at hpath
      cases hpath
  rcases startStreamingFromFileInDirectory_ok hx with ⟨-, -, error, hfail⟩ |
    ⟨tp, md5, m₁, hloads, -, error, path?, m₂, -, hs₂, hpath, hfail⟩ |
    ⟨tp, md5, m₁, hloads, path, m₂, -, -, hs₂, hadd⟩
  · exact sound_failStart (by exact hacquire) hfail
  · exact sound_failStart (hopen hloads hs₂ hpath) hfail
  · exact sound_addAndResume (hopen hloads hs₂ (Or.inr rfl)) (by rw [hs₂]; rfl) hadd

theorem sound_fastForwardTorrent {env : Env} {location length h : Nat} {r : Bool}
    (hs : m.streamer.Sound) (hx : fastForwardTorrent env location length h m = .ok r m') :
    m'.streamer.Sound := by
  obtain ⟨t, md, i, g, es, last, -, -, -, -, ⟨-, -, hs'⟩ | ⟨-, m₁, -, hs₁, hnext⟩⟩ :=
    fastForwardTorrent_ok hx
  · rw [hs']
    exact hs.of_eq rfl rfl
  · exact sound_prioritizeNextPieces (by rw [hs₁]; exact hs.of_eq rfl rfl) hnext

theorem sound_fastForwardLoop {env : Env} {location length : Nat} {hs : List Nat} {r : Bool}
    (hsound : m.streamer.Sound) (hx : fastForwardLoop env location length hs m = .ok r m') :
    m'.streamer.Sound := by
  induction hs generalizing m with
  | nil =>
      obtain ⟨-, rfl⟩ := pure_eq_ok.mp hx
      exact hsound
  | cons h hs ih =>
      obtain ⟨b, m₁, h₁, k₁⟩ := bind_eq_ok.mp hx
      have hsound₁ := sound_fastForwardTorrent hsound h₁
      rcases ite_eq_ok.mp k₁ with ⟨-, k₂⟩ | ⟨-, k₂⟩
      · obtain ⟨-, rfl⟩ := pure_eq_ok.mp k₂
        exact hsound₁
      · exact ih hsound₁ k₂

theorem sound_metadataArrives {s : Streamer} (hs : s.Sound) (h : Nat) (md : Metadata) :
    (s.mapSession (·.metadataArrives h md)).Sound := by
  rcases Session.metadataArrives_cases s.session h md with heq | ⟨t, -, -, heq⟩
  · exact hs.of_eq heq rfl
  -- the new metadata brings a table of its size, in which every piece is wanted
  · have hupdate : (s.mapSession (·.update h (·.withMetadata md))).Sound := by
      refine ⟨?_, fun t ht => ?_, fun t ht => ?_, fun hnone => ?_⟩
      · have hmap : (s.session.torrents.map fun t =>
            if t.handle = h then t.withMetadata md else t).map (·.handle)
            = s.session.torrents.map (·.handle) := by
          rw [List.map_map]
          refine List.map_congr_left fun t _ => ?_
          by_cases ht : t.handle = h
          · simp [ht, Torrent.withMetadata]
          · simp [ht]
        show ((s.session.torrents.map _).map _).Nodup
        rw [hmap]
        exact hs.distinct
      · obtain ⟨t₀, h₀, ⟨-, rfl⟩ | ⟨-, rfl⟩⟩ := Session.mem_update ht
        · exact hs.handle_lt t₀ h₀
        · exact hs.handle_lt t h₀
      · obtain ⟨t₀, h₀, ⟨-, rfl⟩ | ⟨-, rfl⟩⟩ := Session.mem_update ht
        · exact Torrent.allWanted_withMetadata t₀ md
        · exact hs.wanted t h₀
      · show s.session.torrents.map _ = []
        rw [hs.saved hnone, List.map_nil]
    have hsession : (s.mapSession (·.metadataArrives h md)).session = _ := heq
    refine hupdate.of_torrents (by rw [hsession]; rfl) ?_ fun hnone => Or.inl hnone
    rw [hsession]
    exact List.Sublist.refl _

/-- **The step lemma.** -/
theorem sound_step {e : Event} {u : Unit} (hs : m.streamer.Sound) (hx : step e m = .ok u m') :
    m'.streamer.Sound := by
  cases e with
  | start env arg progress readyToPlay failure => exact sound_start hs hx
  | startMulti env arg progress readyToPlay failure callback =>
      obtain ⟨m₁, -, hs₁, hstart⟩ := startMulti_ok hx
      refine sound_start ?_ hstart
      rw [hs₁]
      exact hs.of_eq rfl rfl
  | cancel env deleteData => exact sound_cancel hs hx
  | alertsLoop batch =>
      rcases alertsLoop_ok hx with ⟨-, hbatch⟩ | ⟨-, rfl⟩
      · have hkeeps : Keeps (fun m : Machine => m.streamer.Sound)
            (each (fun d : Env × Alert => dispatchAlert d.1 d.2) batch) :=
          keeps_each fun d _ _ hs _ _ hd => sound_dispatchAlert hs hd
        exact hkeeps _ hs _ _ hbatch
      · exact hs
  | fastForward env location length =>
      obtain ⟨r, hloop⟩ := fastForward_ok hx
      exact sound_fastForwardLoop hs hloop
  | mainQueue =>
      obtain ⟨-, ⟨-, hs'⟩ | ⟨b, rest, -, hs'⟩⟩ := runMainQueue_ok hx
      · rwa [hs']
      · rw [hs']
        exact hs.of_eq rfl rfl
  | metadataArrives h md =>
      simp only [step, modifies_eq_ok] at hx
      rw [hx]
      exact sound_metadataArrives hs h md

/-- **Every reachable streamer is sound.** -/
theorem Reachable.sound (h : Reachable m) : m.streamer.Sound := by
  obtain ⟨n, es, hrun⟩ := h
  have hkeeps : Keeps (fun m : Machine => m.streamer.Sound) (run es) :=
    keeps_each fun e _ _ hs _ _ hx => sound_step hs hx
  exact hkeeps _ (sound_init n) _ _ hrun

/-! ## The pieces of the selected file -/

/-- File `f` of the torrent was given the top priority. -/
def Torrent.Selected (t : Torrent) (f : Nat) : Prop :=
  t.filePriorities[f]? = some priorityMaximum

/-- The pieces of file `f`, and no others, are downloaded. -/
def Torrent.DownloadsOnly (t : Torrent) (md : Metadata) (f : Nat) : Prop :=
  ∀ p < md.val.numPieces,
    (md.val.Overlaps f p → ∃ x, t.piecePriorities[p]? = some x ∧ x ≠ prioritySkip) ∧
    (¬ md.val.Overlaps f p → t.piecePriorities[p]? = some prioritySkip)

/-- Of a sound torrent every piece is downloaded. -/
theorem Torrent.AllWanted.getElem? {t : Torrent} {md : Metadata} {p : Nat} (h : t.AllWanted)
    (hmd : t.info = some md) (hp : p < md.val.numPieces) :
    ∃ x, t.piecePriorities[p]? = some x ∧ x ≠ prioritySkip := by
  have hlt : p < t.piecePriorities.length := by rw [h.1 md hmd]; exact hp
  refine ⟨t.piecePriorities[p], List.getElem?_eq_getElem hlt, ?_⟩
  exact h.2 (by rw [hmd]; rfl) _ (List.getElem_mem hlt)

/-- **Only the selected file is downloaded exactly when it has a byte in every piece.** In
every reachable state no piece is skipped, so the priorities keep to the selected file only
where there is nothing to skip. -/
theorem downloadsOnly_selected_iff (hm : Reachable m) {t : Torrent} {md : Metadata}
    (ht : t ∈ m.streamer.session.torrents) (hmd : t.info = some md) :
    (∀ f, t.Selected f → t.DownloadsOnly md f) ↔
      ∀ f, t.Selected f → ∀ p < md.val.numPieces, md.val.Overlaps f p := by
  have hwanted := hm.sound.wanted t ht
  constructor
  · intro h f hf p hp
    by_contra hover
    obtain ⟨x, hx, hne⟩ := hwanted.getElem? hmd hp
    rw [(h f hf p hp).2 hover] at hx
    exact hne (Option.some.inj hx).symm
  · intro h f hf p hp
    exact ⟨fun _ => hwanted.getElem? hmd hp, fun hover => absurd (h f hf p hp) hover⟩

/-- A torrent of two files is started. -/
def startTwoFilms : List Event :=
  [.start (Env.calm (Metadata.films 1 12 [2]) fun _ => false) "a.torrent".toList none none none]

/-- The state a run ends in. -/
def finalState (es : List Event) : Option Machine :=
  match run es (Machine.init 0) with
  | .ok () m => some m
  | .error _ _ => none

theorem run_of_finalState {es : List Event} (h : finalState es = some m) :
    run es (Machine.init 0) = .ok () m := by
  unfold finalState at h
  split at h
  · rename_i m₁ hrun
    rw [hrun, Option.some.inj h]
  · cases h

theorem reachable_of_finalState {es : List Event} (h : finalState es = some m) : Reachable m :=
  ⟨0, es, run_of_finalState h⟩

/-- The first file has the top priority, and the pieces of the second are downloaded too. -/
theorem not_downloadsOnly_startTwoFilms :
    ¬ ∀ (m : Machine), Reachable m → ∀ t ∈ m.streamer.session.torrents, ∀ md,
      t.info = some md → ∀ f, t.Selected f → t.DownloadsOnly md f := by
  intro h
  have hfinal : (finalState startTwoFilms).map (fun m => m.streamer.session.torrents.map
      fun t => (t.info, t.filePriorities, t.piecePriorities)) =
      some [(some (Metadata.films 1 12 [2]), [7, 0],
        [1, 1, 7, 7, 7, 7, 7, 7, 7, 7, 7, 7, 1, 1])] := by decide +kernel
  obtain ⟨m, hm, hmap⟩ := Option.map_eq_some_iff.mp hfinal
  obtain ⟨t, ts, htorrents, ht, -⟩ := List.map_eq_cons_iff.mp hmap
  obtain ⟨hinfo, hfiles, hpieces⟩ : t.info = _ ∧ t.filePriorities = _ ∧ t.piecePriorities = _ := by
    simpa using ht
  have hskip := (h m (reachable_of_finalState hm) t (by simp [htorrents]) _ hinfo 0
    (by rw [Torrent.Selected, hfiles]; rfl) 12 (by decide)).2 (by decide)
  rw [hpieces] at hskip
  exact absurd hskip (by decide)

/-- A film of ten bytes and a text of one, in pieces of four bytes. -/
def Metadata.filmAndText : Metadata :=
  ⟨{ infoHash := 1
     files := [{ path := "film.mp4".toList, size := 10 }, { path := "read.txt".toList, size := 1 }]
     pieceLength := 4 }, by decide⟩

/-- The text lies in the last piece of the film, so that all pieces are the film's. -/
theorem downloadsOnly_filmAndText :
    ∃ m, Reachable m ∧ ∃ t ∈ m.streamer.session.torrents, t.info = some Metadata.filmAndText ∧
      t.Selected 0 ∧ ∀ f, t.Selected f → t.DownloadsOnly Metadata.filmAndText f := by
  have hfinal : (finalState [.start (Env.calm Metadata.filmAndText fun _ => false)
      "a.torrent".toList none none none]).map (fun m => m.streamer.session.torrents.map
        fun t => (t.info, t.filePriorities)) =
      some [(some Metadata.filmAndText, [7, 0])] := by decide +kernel
  obtain ⟨m, hm, hmap⟩ := Option.map_eq_some_iff.mp hfinal
  obtain ⟨t, ts, htorrents, ht, -⟩ := List.map_eq_cons_iff.mp hmap
  obtain ⟨hinfo, hfiles⟩ : t.info = _ ∧ t.filePriorities = _ := by simpa using ht
  have hreach := reachable_of_finalState hm
  have hmem : t ∈ m.streamer.session.torrents := by simp [htorrents]
  refine ⟨m, hreach, t, hmem, hinfo, ?_, (downloadsOnly_selected_iff hreach hmem hinfo).mpr ?_⟩
  · rw [Torrent.Selected, hfiles]
    rfl
  · intro f hf
    rw [Torrent.Selected, hfiles] at hf
    obtain rfl : f = 0 := by
      rcases f with _ | _ | f
      · rfl
      · exact absurd hf (by decide)
      · simp at hf
    decide

end BtDownloader
