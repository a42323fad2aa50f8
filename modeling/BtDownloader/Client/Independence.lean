import BtDownloader.Client.Leftovers
import BtDownloader.Client.Announce
import Mathlib.Data.Fintype.EquivFin

set_option autoImplicit false

/-! # Runs that do not depend on earlier runs

A start on a streamer that has been used should show what it shows on a new one, whatever the
alerts are that follow it. A run sets most of what earlier runs leave over before it looks at it.
It does not set the shared variables, `required_pieces`, `firstPiece` and `streaming`, which a
finished download keeps, nor does it remove torrents that a cancel has left in the session.

* `isLikeNew_of_clean`: where nothing of this is left over, every following run is as on a new
  streamer.
* `isLikeNew_iff_clean`: elsewhere some following run is not. For each leftover there is a start,
  and an alert after it, that shows it.
-/

namespace BtDownloader

open Program

variable {m m' : Machine}

/-! ## What a run shows -/

/-- The priority and deadline commands and the calls of blocks. -/
def Effect.IsShown : Effect → Bool
  | .command _ c => c.isPriority
  | .calledProgress .. => true
  | .calledReadyToPlay .. => true
  | .calledFailure .. => true
  | .calledSelection .. => true
  | _ => false

/-- What a run shows: its commands and calls and, where it returns, what it requires and which
file it has chosen. -/
inductive Shown
  | returned (requiredPieces : List Int) (selectedFileIndex : Int) (effects : List Effect)
  | stopped (fault : Fault) (effects : List Effect)
deriving DecidableEq

/-- What `m` shows of its effects after the first `n`. -/
def Machine.effectsShown (m : Machine) (n : Nat) : List Effect :=
  (m.streamer.effects.drop n).filter Effect.IsShown

/-- What is shown by a run that ends so, after `n` effects of earlier runs. -/
def shownOf (n : Nat) : EStateM.Result Fault Machine Unit → Shown
  | .ok _ m => .returned m.streamer.requiredPieces m.globals.selectedFileIndex (m.effectsShown n)
  | .error fault m => .stopped fault (m.effectsShown n)

/-- What the events show, from `m` on. -/
def Machine.shows (m : Machine) (es : List Event) : Shown :=
  shownOf m.streamer.effects.length (run es m)

/-- Whatever is started now, and whatever is delivered then, shows what it shows on a new
streamer. -/
def Machine.IsLikeNew (m : Machine) : Prop :=
  ∀ (e : Event) (es : List Event), e.IsStart → (∀ e' ∈ es, e'.IsDelivery) →
    m.shows (e :: es) = (Machine.init m.streamer.session.nextHandle).shows (e :: es)

/-- No run is live: the last one has failed, finished or been cancelled. Its alerts and its
blocks on the main queue have been processed. -/
structure Machine.Settled (m : Machine) : Prop where
  stopped : m.streamer.Stopped
  mainQueue : m.streamer.mainQueue = []

instance (m : Machine) : Decidable m.Settled :=
  decidable_of_iff (m.streamer.Stopped ∧ m.streamer.mainQueue = [])
    ⟨fun h => ⟨h.1, h.2⟩, fun h => ⟨h.stopped, h.mainQueue⟩⟩

/-- Nothing is left over that a run looks at before it sets it. -/
structure Machine.Clean (m : Machine) : Prop where
  globals : m.globals = {}
  torrents : m.streamer.session.torrents = []
  requiredPieces : m.streamer.requiredPieces = []
  firstPiece : m.streamer.firstPiece = -1
  streaming : m.streamer.streaming = false

instance (m : Machine) : Decidable m.Clean :=
  decidable_of_iff (m.globals = {} ∧ m.streamer.session.torrents = [] ∧
      m.streamer.requiredPieces = [] ∧ m.streamer.firstPiece = -1 ∧ m.streamer.streaming = false)
    ⟨fun ⟨hg, ht, hr, hf, hs⟩ => ⟨hg, ht, hr, hf, hs⟩,
      fun h => ⟨h.globals, h.torrents, h.requiredPieces, h.firstPiece, h.streaming⟩⟩

/-! ## A clean streamer is like a new one -/

theorem SameSoFar.effectsShown_eq {before : List Effect} {m n : Machine}
    (h : SameSoFar before m n) : m.effectsShown before.length = n.effectsShown 0 := by
  unfold Machine.effectsShown
  rw [h.effects, List.drop_left, List.drop_zero]

/-- A clean streamer and a new one are alike from the moment on the blocks are set. -/
theorem Machine.Clean.alikeGone (hm : m.Clean) (hsettled : m.Settled) {m₁ n₁ : Machine}
    {block? block?' : Option SelectionBlock} (hg : m₁.globals = n₁.globals)
    (hm₁ : m₁.streamer = { m.streamer with selectionBlock := block? })
    (hn₁ : n₁.streamer = { Streamer.init m.streamer.session.nextHandle with
      selectionBlock := block?' })
    (hblock : m₁.globals.shouldUserSelectFiles = true → block? = block?')
    (progress readyToPlay failure : Option BlockId) :
    AlikeGone m.streamer.effects False
      { m₁ with streamer := m₁.streamer.acquire progress readyToPlay failure }
      { n₁ with streamer := n₁.streamer.acquire progress readyToPlay failure } := by
  have hprogress : MainBlock.progress ∉ m.streamer.mainQueue := by
    rw [hsettled.mainQueue]
    exact List.not_mem_nil
  rw [hm₁, hn₁]
  refine ⟨⟨hg, ?_⟩, ⟨hm.torrents, hm.streaming⟩, ⟨rfl, rfl⟩⟩
  exact {
    session := ⟨hm.torrents, rfl, hsettled.stopped.2, False.elim⟩
    savePath := False.elim
    selectionBlock := hblock
    requiredPieces := hm.requiredPieces
    firstPiece := hm.firstPiece
    alertsLoopActive := rfl
    streaming := hm.streaming
    status := fun hstreaming => absurd (hm.streaming.symm.trans hstreaming) Bool.false_ne_true
    progressBlock := rfl
    readyToPlayBlock := rfl
    failureBlock := rfl
    mainQueue := hsettled.mainQueue
    torrentStatus := fun hmem => absurd hmem hprogress
    effects := (List.append_nil _).symm }

/-- **A start on a clean streamer** runs as it runs on a new one. -/
theorem Machine.Clean.respects_start (hm : m.Clean) (hsettled : m.Settled) {e : Event}
    (he : e.IsStart) :
    Respects (SameSoFar m.streamer.effects)
      (fun m₁ n₁ => m₁ = m ∧ n₁ = Machine.init m.streamer.session.nextHandle)
      (step e) fun _ => AlikeRuns m.streamer.effects := by
  cases e with
  | start env arg progress readyToPlay failure =>
      refine BtDownloader.respects_start env arg none progress readyToPlay failure ?_
      rintro m₁ n₁ ⟨rfl, rfl⟩
      refine hm.alikeGone hsettled hm.globals rfl rfl (fun hflag => ?_) progress readyToPlay failure
      rw [hm.globals] at hflag
      cases hflag
  | startMulti env arg progress readyToPlay failure callback =>
      refine Respects.bind (Q := fun _ m₁ n₁ => m₁.globals = n₁.globals ∧
        m₁.streamer = m.streamer ∧ n₁.streamer = Streamer.init m.streamer.session.nextHandle)
        ?_ fun _ => ?_
      · rintro m₁ n₁ ⟨rfl, rfl⟩
        refine Or.inl ⟨_, _, _, _, rfl, rfl, rfl, ?_, rfl, rfl⟩
        simp only [hm.globals, Machine.init]
      refine Respects.bind (Q := fun _ m₁ n₁ => m₁.globals = n₁.globals ∧
        m₁.streamer = { m.streamer with selectionBlock := some callback } ∧
        n₁.streamer = { Streamer.init m.streamer.session.nextHandle with
          selectionBlock := some callback }) ?_ fun _ => ?_
      · refine respects_modifies ?_
        rintro m₁ n₁ ⟨hg, hm₁, hn₁⟩
        exact ⟨hg, by rw [hm₁], by rw [hn₁]⟩
      refine BtDownloader.respects_start env arg none progress readyToPlay failure ?_
      rintro m₁ n₁ ⟨hg, hm₁, hn₁⟩
      exact hm.alikeGone hsettled hg hm₁ hn₁ (fun _ => rfl) progress readyToPlay failure
  | _ => exact he.elim

/-- **A run on a clean streamer shows what it shows on a new one.** -/
theorem isLikeNew_of_clean (hm : m.Clean) (hsettled : m.Settled) : m.IsLikeNew := by
  intro e es he hes
  have hrun : Respects (SameSoFar m.streamer.effects)
      (fun m₁ n₁ => m₁ = m ∧ n₁ = Machine.init m.streamer.session.nextHandle)
      (run (e :: es)) fun _ => AlikeRuns m.streamer.effects :=
    Respects.bind (hm.respects_start hsettled he) fun _ =>
      respects_each fun e' he' => respects_delivery (hes e' he')
  unfold Machine.shows
  rcases hrun m _ ⟨rfl, rfl⟩ with ⟨_, m', _, n', h₁, h₂, -, halike⟩ | ⟨fault, m', n', h₁, h₂, hsame⟩
  · have hsame := halike.sameSoFar
    have heffects := hsame.effectsShown_eq
    rw [h₁, h₂]
    show Shown.returned _ _ _ = Shown.returned _ _ _
    rw [hsame.requiredPieces, hsame.selectedFileIndex, heffects]
    rfl
  · have heffects := hsame.effectsShown_eq
    rw [h₁, h₂]
    show Shown.stopped _ _ = Shown.stopped _ _
    rw [heffects]
    rfl

/-! ## Starts and alerts after them -/

theorem returned_of_shownOf {n : Nat} {r : EStateM.Result Fault Machine Unit} {ps : List Int}
    {i : Int} {shown : List Effect} (h : shownOf n r = .returned ps i shown) :
    ∃ m, r = .ok () m ∧ m.streamer.requiredPieces = ps ∧ m.globals.selectedFileIndex = i ∧
      m.effectsShown n = shown := by
  cases r with
  | error fault m => cases h
  | ok u m =>
      injection h with hrequired hindex hshown
      exact ⟨m, rfl, hrequired, hindex, hshown⟩

theorem stopped_of_shownOf {n : Nat} {r : EStateM.Result Fault Machine Unit} {fault : Fault}
    {shown : List Effect} (h : shownOf n r = .stopped fault shown) :
    ∃ m, r = .error fault m ∧ m.effectsShown n = shown := by
  cases r with
  | ok u m => cases h
  | error fault' m =>
      injection h with hfault hshown
      exact ⟨m, by rw [hfault], hshown⟩

theorem run_singleton (e : Event) (m : Machine) : run [e] m = step e m := by
  show (step e >>= fun _ => pure ()) m = step e m
  rw [bind_apply]
  cases step e m <;> rfl

/-- A start and one alert after it. -/
theorem run_start_alert {e : Event} (hx : step e m = .ok () m')
    (hactive : m'.streamer.alertsLoopActive = true) (env : Env) (a : Alert) :
    run [e, .alertsLoop [(env, a)]] m = dispatchAlert env a m' := by
  have hloop : step (.alertsLoop [(env, a)]) m' =
      each (fun d : Env × Alert => dispatchAlert d.1 d.2) [(env, a)] m' := by
    show alertsLoop [(env, a)] m' = _
    rw [alertsLoop, bind_of_ok (show gets _ m' = .ok _ m' from rfl), if_pos hactive]
  have hrun : run [e, .alertsLoop [(env, a)]] m = run [.alertsLoop [(env, a)]] m' := bind_of_ok hx
  rw [hrun, run_singleton, hloop, each_cons, bind_apply]
  cases dispatchAlert env a m' <;> rfl

/-- On a streamer that is like a new one, a start shows the same. -/
theorem Machine.IsLikeNew.start (hlike : m.IsLikeNew) {e : Event} (he : e.IsStart) :
    shownOf m.streamer.effects.length (step e m) =
      shownOf 0 (step e (Machine.init m.streamer.session.nextHandle)) := by
  have hshows := hlike e [] he nofun
  rw [Machine.shows, Machine.shows, run_singleton, run_singleton] at hshows
  exact hshows

/-- On a streamer that is like a new one, a start and an alert after it show the same. -/
theorem Machine.IsLikeNew.alert (hlike : m.IsLikeNew) {e : Event} (he : e.IsStart)
    {m₁ n₁ : Machine} (hx : step e m = .ok () m₁)
    (hy : step e (Machine.init m.streamer.session.nextHandle) = .ok () n₁)
    (hactive : m₁.streamer.alertsLoopActive = true)
    (hactive' : n₁.streamer.alertsLoopActive = true) (env : Env) (a : Alert) :
    shownOf m.streamer.effects.length (dispatchAlert env a m₁) =
      shownOf 0 (dispatchAlert env a n₁) := by
  have hshows := hlike e [.alertsLoop [(env, a)]] he (by simp [Event.IsDelivery])
  rw [Machine.shows, Machine.shows, run_start_alert hx hactive, run_start_alert hy hactive']
    at hshows
  exact hshows

/-! ## Starts that show what is left over -/

/-- Answers with which a link has its metadata in the resume data. -/
def Env.link (md : Metadata) : Env :=
  { Env.calm md fun _ => false with
    resumeData := fun _ => some []
    readResumeData := fun _ => ({ ti := some md.val }, none) }

/-- The start of a link. -/
def startLink (md : Metadata) : Event := .start (.link md) "magnet:".toList none none none

/-- What the start of a link leaves of a streamer. -/
structure Linked (md : Metadata) (m m' : Machine) : Prop where
  globals : m'.globals = m.globals
  sound : m'.streamer.Sound
  knows : Knows m.streamer.session.nextHandle md m'
  outstanding : m'.streamer.session.outstanding = m.streamer.session.outstanding
  requiredPieces : m'.streamer.requiredPieces = m.streamer.requiredPieces
  firstPiece : m'.streamer.firstPiece = m.streamer.firstPiece
  streaming : m'.streamer.streaming = m.streamer.streaming
  alertsLoopActive : m'.streamer.alertsLoopActive = true

theorem isMagnet_link : isMagnet "magnet:".toList = true := by decide

/-- The parameters with which the link goes to `add_torrent`. -/
def linkParams (md : Metadata) (path : Text) : AddTorrentParams :=
  { ti := some md.val, savePath := path, storageModeAllocate := true }

/-- The parameters of the link are those of its resume data. -/
theorem finalParams_link {arg : Text} (hmagnet : isMagnet arg = true) (md : Metadata)
    (path : Text) (tp : AddTorrentParams) :
    finalParams (.link md) arg path tp = linkParams md path := by
  simp [finalParams, resumeParams, linkParams, Env.link, Env.calm, hmagnet]

/-- The streamer after `add_torrent` for the link. -/
def Streamer.withLink (order : MapOrder) (md : Metadata) (path : Text) (s : Streamer) :
    Streamer :=
  { s.acquire none none none with savePath := some path }.withSession
    (s.session.insert order ((linkParams md path).torrent s.session.nextHandle))
    [.added s.session.nextHandle]

theorem holding?_linkParams {md : Metadata} {s : Session}
    (hnew : ∀ t ∈ s.torrents, t.infoHash ≠ md.val.infoHash) (path : Text) :
    s.holding? (linkParams md path) = none :=
  List.find?_eq_none.mpr fun t ht heq => hnew t ht (of_decide_eq_true heq)

theorem refusal_linkParams {md : Metadata} (hhash : md.val.infoHash ≠ 0) (path : Text) :
    (Env.link md).refusal (linkParams md path) = none := by
  obtain ⟨hfiles, hlength⟩ := md.property
  simp [Env.refusal, linkParams, Env.link, Env.calm, AddTorrentParams.hash, hhash, hfiles,
    hlength.ne']

theorem returns_startLink {md : Metadata} (hs : m.streamer.Sound) (hhash : md.val.infoHash ≠ 0)
    (hnew : ∀ t ∈ m.streamer.session.torrents, t.infoHash ≠ md.val.infoHash) :
    Returns (step (startLink md)) m := by
  refine returns_of_handled hs
    (.magnet { infoHash := md.val.infoHash } isMagnet_link rfl fun path _ => ?_)
  rw [finalParams_link isMagnet_link]
  refine ⟨refusal_linkParams hhash path, fun t ht => ?_⟩
  rw [holding?_linkParams hnew] at ht
  cases ht

/-- What the start of a new link does. -/
theorem startLink_ok {md : Metadata} {u : Unit}
    (hnew : ∀ t ∈ m.streamer.session.torrents, t.infoHash ≠ md.val.infoHash)
    (hx : step (startLink md) m = .ok u m') :
    m'.globals = m.globals ∧ ∃ order path, m'.streamer =
      (((m.streamer.withLink order md path).sent (.link md) m.streamer.session.nextHandle
        addCommands).resumes.dispatch (.networkActivityIndicator true)) := by
  rcases startStreamingFromFileInDirectory_ok hx with ⟨hfile, -⟩ |
    ⟨tp, md5, m₁, -, hclosed, -⟩ | ⟨tp, md5, m₁, hloads, path, m₂, -, hg₂, hs₂, hadd⟩
  · rw [isMagnet_link] at hfile
    cases hfile
  · simp [openedPath, Env.link, Env.calm] at hclosed
  rw [finalParams_link isMagnet_link] at hadd
  obtain ⟨h, s₁, m₃, m₄, hadds, -, hg₃, hs₃, hmeta, hg', hs'⟩ := addAndResume_ok hadd
  have hm₁ : m₁ = { m with streamer := m.streamer.acquire none none none } := by
    cases hloads with
    | magnet tp hmagnet hparse hm₁ => exact hm₁
    | file md i fe g es hfile => rw [isMagnet_link] at hfile; cases hfile
  obtain rfl : m₄ = m₃ := by
    rcases hmeta with ⟨-, hm₄⟩ | ⟨hfile, -⟩
    · exact hm₄
    · rw [isMagnet_link] at hfile
      cases hfile
  have hs₂' : m₂.streamer =
      { m.streamer.acquire none none none with savePath := some path } := by
    rw [hs₂, hm₁]
  rw [hs₂'] at hadds
  refine ⟨by rw [hg', hg₃, hg₂, hm₁], ?_⟩
  cases hadds with
  | found t ht =>
      have ht : m.streamer.session.holding? (linkParams md path) = some t := ht
      rw [holding?_linkParams hnew] at ht
      cases ht
  | added order hnone =>
      refine ⟨order, path, ?_⟩
      rw [hs', hs₃]
      rfl

theorem linked_startLink (md : Metadata) (hs : m.streamer.Sound) (hhash : md.val.infoHash ≠ 0)
    (hnew : ∀ t ∈ m.streamer.session.torrents, t.infoHash ≠ md.val.infoHash) :
    ∃ m', step (startLink md) m = .ok () m' ∧ Linked md m m' := by
  obtain ⟨_, m', hx⟩ := returns_startLink hs hhash hnew
  obtain ⟨hglobals, order, path, hs'⟩ := startLink_ok hnew hx
  refine ⟨m', hx, hglobals, sound_start hs hx, ?_, ?_, ?_, ?_, ?_, ?_⟩
  · -- the torrent that was added, after its commands
    let n := m.streamer.session.nextHandle
    let t := (linkParams md path).torrent n
    have hhandle : t.handle = n := (linkParams md path).torrent_handle n
    have hmem : t.applyAll ((Env.link md).downloaded n) addCommands ∈
        m'.streamer.session.torrents := by
      rw [hs']
      exact List.mem_map.mpr ⟨t, Session.mem_insert.mpr (Or.inl rfl), if_pos hhandle⟩
    have hfind := (sound_start hs hx).find?_of_mem hmem
    rw [Torrent.applyAll_handle, hhandle] at hfind
    refine ⟨_, hfind, ?_⟩
    rw [Torrent.applyAll_info]
    exact ((linkParams md path).torrent_info n).trans (AddTorrentParams.info_eq_some rfl)
  all_goals
    rw [hs']
    rfl

theorem linked_init (md : Metadata) (n : Nat) (hhash : md.val.infoHash ≠ 0) :
    ∃ n', step (startLink md) (Machine.init n) = .ok () n' ∧ Linked md (Machine.init n) n' :=
  @linked_startLink (Machine.init n) md (sound_init n) hhash fun _ ht => absurd ht List.not_mem_nil

/-- A streamer that is like a new one requires no piece and has no file chosen: the start of a
link changes neither. -/
theorem Machine.IsLikeNew.kept (hlike : m.IsLikeNew) (hs : m.streamer.Sound) :
    m.streamer.requiredPieces = [] ∧ m.globals.selectedFileIndex = -1 := by
  obtain ⟨k, hk⟩ := Infinite.exists_notMem_finset
    (0 :: m.streamer.session.torrents.map (·.infoHash)).toFinset
  simp only [List.toFinset_cons, Finset.mem_insert, List.mem_toFinset, List.mem_map, not_or,
    not_exists, not_and] at hk
  obtain ⟨hhash, hnew⟩ := hk
  let md := Metadata.films k 10 [5]
  let n := m.streamer.session.nextHandle
  obtain ⟨m₁, hx, hm₁⟩ := linked_startLink md hs hhash hnew
  obtain ⟨n₁, hy, hn₁⟩ := linked_init md n hhash
  have hshows := hlike.start (e := startLink md) trivial
  rw [hx, hy] at hshows
  injection hshows with hrequired hselected
  refine ⟨?_, ?_⟩
  · rw [← hm₁.requiredPieces, hrequired, hn₁.requiredPieces]
    rfl
  · rw [← hm₁.globals, hselected, hn₁.globals]
    rfl

/-- Answers with which there is no folder for the download. -/
def Env.folderless : Env :=
  { Env.calm (Metadata.films 1 10 [5]) fun _ => false with downloadDirectory := none }

/-- A streamer that is like a new one does not ask the user in a plain start: without a folder
the start of a new one fails, and no block was called before. -/
theorem Machine.IsLikeNew.flag (hlike : m.IsLikeNew)
    (hselected : m.globals.selectedFileIndex = -1) : m.globals.shouldUserSelectFiles = false := by
  let e : Event := .start .folderless "a.torrent".toList none none none
  have hfresh : shownOf 0 (step e (Machine.init m.streamer.session.nextHandle)) =
      .returned [] (-1) [] := rfl
  obtain ⟨m', hx, -, -, hshown⟩ :=
    returned_of_shownOf ((hlike.start (e := e) trivial).trans hfresh)
  by_contra hflag
  rcases startStreamingFromFileInDirectory_ok hx with ⟨-, hmissing, -⟩ |
    ⟨tp, md5, m₂, hloads, -, error, path?, m₃, -, hs₃, -, hfail⟩ |
    ⟨tp, md5, m₂, -, path, m₃, hopened, -⟩
  · cases hmissing
  · obtain ⟨m₄, -, hs₄, hcancel⟩ := failStart_ok hfail
    obtain ⟨-, session, es', -, hs', -⟩ := cancel_keeping_ok hcancel
    cases hloads with
    | magnet tp hmagnet => exact absurd hmagnet (by decide)
    | file md i fe g es hfile hexists hparse hselects hfe hg hs =>
        -- the user was asked, which shows
        cases hselects with
        | earlier _ hsel => exact hsel hselected
        | largest _ hplain => exact hflag hplain
        | only _ hplain => exact hflag hplain
        | asked ti block =>
            have heffects : m'.streamer.effects = m.streamer.effects ++
                (.calledSelection block.block ti.fileNames :: (failureEffects none error ++ es' ++
                  [.cancelled, .dispatched (.networkActivityIndicator false)])) := by
              rw [hs', hs₄, hs₃, hs]
              simp [Streamer.cancelled, Streamer.dispatch, Streamer.log, Streamer.reset,
                Streamer.withSession, Streamer.acquire]
            have hmem : Effect.calledSelection block.block ti.fileNames ∈
                m'.effectsShown m.streamer.effects.length := by
              rw [Machine.effectsShown, heffects, List.drop_left]
              exact List.mem_filter.mpr ⟨List.mem_cons_self, rfl⟩
            rw [hshown] at hmem
            cases hmem
  · cases hopened

/-- The start of a file that is not there. -/
def startMissing : Event :=
  .start { Env.calm (Metadata.films 1 10 [5]) fun _ => false with fileExists := fun _ => false }
    "a.torrent".toList none none none

/-- A start that finds no file leaves the torrents of the session there, paused. -/
structure Failed (m m' : Machine) : Prop where
  sound : m'.streamer.Sound
  globals : m'.globals = { m.globals with selectedFileIndex := -1 }
  torrents : m'.streamer.session.torrents = m.streamer.session.torrents.map Torrent.pause
  owed : m.streamer.session.outstanding = [] →
    ∀ h, .metadataReceived h ∉ m'.streamer.session.outstanding
  alertsLoopActive : m'.streamer.alertsLoopActive = true

theorem failed_startMissing (hs : m.streamer.Sound) :
    ∃ m', step startMissing m = .ok () m' ∧ Failed m m' := by
  have hfile : isMagnet "a.torrent".toList = false := by decide
  have hreturns : Returns (step startMissing) m := returns_of_handled hs (.missing hfile rfl)
  obtain ⟨_, m', hx⟩ := hreturns
  refine ⟨m', hx, ?_⟩
  -- the file is missing, so the other two outcomes are excluded
  rcases startStreamingFromFileInDirectory_ok hx with ⟨-, -, error, hfail⟩ |
    ⟨tp, md5, m₁, hloads, -⟩ | ⟨tp, md5, m₁, hloads, -⟩
  · obtain ⟨m₁, hg₁, hs₁, hcancel⟩ := failStart_ok hfail
    obtain ⟨hg', session, es, -, hs', -, htorrents, owed, howed, hresume⟩ :=
      cancel_keeping_ok hcancel
    refine ⟨sound_start hs hx, by rw [hg', hg₁], ?_, fun hnil h hmem => ?_, ?_⟩
    · rw [hs', ← show m₁.streamer.session.torrents = m.streamer.session.torrents by rw [hs₁]; rfl]
      exact htorrents
    · rw [hs'] at hmem
      have hmem : Alert.metadataReceived h ∈ session.outstanding := hmem
      rw [howed, hs₁] at hmem
      rcases List.mem_append.mp hmem with hmem | hmem
      · have hmem : Alert.metadataReceived h ∈ m.streamer.session.outstanding := hmem
        rw [hnil] at hmem
        cases hmem
      · obtain ⟨h', heq⟩ := hresume _ hmem
        cases heq
    · rw [hs', hs₁]
      rfl
  · cases hloads with
    | magnet tp hmagnet => rw [hfile] at hmagnet; cases hmagnet
    | file md i fe g es _ hexists => cases hexists
  · cases hloads with
    | magnet tp hmagnet => rw [hfile] at hmagnet; cases hmagnet
    | file md i fe g es _ hexists => cases hexists

/-- A streamer that is like a new one has no torrent: the alert of a torrent that an earlier run
has left in the session is handled, and on a new streamer its handle is invalid. -/
theorem Machine.IsLikeNew.torrents (hlike : m.IsLikeNew) (hs : m.streamer.Sound)
    (hflag : m.globals.shouldUserSelectFiles = false) : m.streamer.session.torrents = [] := by
  rw [List.eq_nil_iff_forall_not_mem]
  intro t ht
  let env := Env.calm (Metadata.films 1 10 [5]) fun _ => false
  let a := Alert.torrentFinished t.handle
  obtain ⟨m₁, hx, hm₁⟩ := failed_startMissing hs
  obtain ⟨n₁, hy, hn₁⟩ := @failed_startMissing (Machine.init m.streamer.session.nextHandle)
    (sound_init _)
  -- here the alert of the torrent that is left is handled, or not delivered
  have hleft : Returns (dispatchAlert env a) m₁ := by
    have hfind : m₁.streamer.session.find? t.handle = some t.pause :=
      hm₁.sound.find?_of_mem (by rw [hm₁.torrents]; exact List.mem_map_of_mem ht)
    unfold Returns
    rw [dispatchAlert_apply]
    by_cases hcan : m₁.streamer.session.canDeliver a = true
    · rw [if_pos hcan]
      obtain ⟨md, hmd⟩ : ∃ md, t.pause.info = some md := by
        simp only [a, Session.canDeliver, Session.canDeliver.known, hfind, Option.all_some,
          Bool.and_eq_true] at hcan
        exact Option.isSome_iff_exists.mp hcan.1
      obtain ⟨fe, hfe, -⟩ := fileAt_defaultFileIndex md
      refine returns_torrentFinishedAlert hfind hmd (i := defaultFileIndex md.val) ?_ hfe
      simp [Machine.fileIndex?, Machine.choice?, hm₁.globals, hflag]
    · exact ⟨(), m₁, if_neg hcan⟩
  -- a new streamer has no torrent that could have finished
  have hright : ¬ Returns (dispatchAlert env a) n₁ := by
    rintro ⟨_, n₂, hn₂⟩
    have hnil : n₁.streamer.session.torrents = [] := hn₁.torrents
    have hcan : n₁.streamer.session.canDeliver a = true := by
      simp [a, Session.canDeliver, Session.canDeliver.known, find?_eq_none hnil, hn₁.owed rfl]
    rw [dispatchAlert_apply, if_pos hcan] at hn₂
    exact not_handleAlert_of_torrents_nil (by exact hnil) hn₂
  have hshows := hlike.alert (e := startMissing) trivial hx hy hm₁.alertsLoopActive
    hn₁.alertsLoopActive env a
  obtain ⟨_, m₂, hm₂⟩ := hleft
  rw [hm₂] at hshows
  obtain ⟨n₂, hn₂, -⟩ := returned_of_shownOf hshows.symm
  exact hright ⟨(), n₂, hn₂⟩

/-- The torrent of the link finishes a piece, or as a whole. -/
theorem Linked.dispatchAlert_eq {md : Metadata} (hm' : Linked md m m')
    (howed : m.streamer.session.outstanding = []) (env : Env) {a : Alert}
    (ha : a = .pieceFinished m.streamer.session.nextHandle 0 ∨
      a = .torrentFinished m.streamer.session.nextHandle) :
    dispatchAlert env a m' = handleAlert env a { m' with streamer := m'.streamer.delivers a } := by
  obtain ⟨t, ht, hmd⟩ := hm'.knows
  have hknown : Session.canDeliver.known m'.streamer.session m.streamer.session.nextHandle := by
    rw [Session.canDeliver.known, ht, hm'.outstanding, howed]
    simp [hmd]
  rw [dispatchAlert_apply, if_pos]
  rcases ha with rfl | rfl <;> exact hknown

/-- A streamer that is like a new one is not streaming: in a run that is, the file is not chosen
when its torrent finishes. -/
theorem Machine.IsLikeNew.streaming (hlike : m.IsLikeNew) (hs : m.streamer.Sound)
    (howed : m.streamer.session.outstanding = []) (htorrents : m.streamer.session.torrents = [])
    (hselected : m.globals.selectedFileIndex = -1) : m.streamer.streaming = false := by
  by_contra hstreaming
  let md := Metadata.films 1 10 [5]
  let env := Env.calm md fun _ => false
  let n := m.streamer.session.nextHandle
  let a := Alert.torrentFinished n
  obtain ⟨m₁, hx, hm₁⟩ := linked_startLink md hs (by decide) (by simp [htorrents])
  obtain ⟨n₁, hy, hn₁⟩ := linked_init md n (by decide)
  -- on a new streamer the larger file is chosen
  obtain ⟨n₂, hn₂, hchosen⟩ : ∃ n₂, dispatchAlert env a n₁ = .ok () n₂ ∧
      n₂.globals.selectedFileIndex = 0 := by
    obtain ⟨t, ht, hmd⟩ := hn₁.knows
    have hglobals : n₁.globals = {} := hn₁.globals
    obtain ⟨_, n₂, hfinish⟩ := @returns_torrentFinishedAlert
      { n₁ with streamer := n₁.streamer.delivers a } env n t md 0 _ ht hmd
      (by rw [Machine.fileIndex?, Machine.choice?, hglobals]; rfl) rfl
    refine ⟨n₂, (hn₁.dispatchAlert_eq rfl env (Or.inr rfl)).trans hfinish, ?_⟩
    obtain ⟨-, n₃, hprocess, hg₂, -⟩ := torrentFinishedAlert_ok hfinish
    rcases processTorrent_ok hprocess with ⟨hstreaming', -⟩ |
      ⟨-, t', md', fe, i, es, ht', hmd', -, hchooses, -⟩
    · exact absurd (hn₁.streaming.symm.trans hstreaming') Bool.false_ne_true
    obtain rfl := Option.some.inj (ht'.symm.trans ht)
    obtain rfl := Option.some.inj (hmd'.symm.trans hmd)
    have hg₁ : ({ n₁ with streamer := n₁.streamer.delivers a } : Machine).globals = {} := hglobals
    rw [hg₁] at hchooses
    rw [hg₂]
    generalize n₃.globals = g at hchooses
    cases hchooses with
    | current hsel => exact absurd rfl hsel
    | selects _ hselects =>
        cases hselects with
        | earlier hflag => cases hflag
        | asked _ _ hflag => cases hflag
        | largest ti _ hti =>
            obtain rfl := Option.some.inj hti
            decide
        | only ti _ hti hfiles =>
            obtain rfl := Option.some.inj hti
            exact absurd (by decide) hfiles
  have hshows := hlike.alert (e := startLink md) trivial hx hy hm₁.alertsLoopActive
    hn₁.alertsLoopActive env a
  rw [hn₂, hm₁.dispatchAlert_eq howed env (Or.inr rfl)] at hshows
  obtain ⟨m₂, hfinish, -, hindex, -⟩ := returned_of_shownOf hshows
  obtain ⟨-, m₃, hprocess, hg₂, -⟩ := torrentFinishedAlert_ok hfinish
  rcases processTorrent_ok hprocess with ⟨-, rfl⟩ | ⟨hnot, -⟩
  · have hkept : m₂.globals.selectedFileIndex = -1 := by
      rw [hg₂]
      exact (congrArg _ hm₁.globals).trans hselected
    rw [hkept, hchosen] at hindex
    cases hindex
  · exact hstreaming (hm₁.streaming.symm.trans hnot)

/-- With nothing left over, the alert of a piece stops for a file of which 3% are less than a
piece: it is required from its first `0` pieces on, and element `-1` is read. -/
theorem pieceFinishedAlert_stops {env : Env} {h : Nat} {md : Metadata} {fe : FileEntry}
    (hglobals : m.globals = {}) (hrequired : m.streamer.requiredPieces = [])
    (hfirst : m.streamer.firstPiece = -1) (hpath : m.streamer.savePath.isSome)
    (hknows : Knows h md m) (hroom : ¬ env.LowSpace h)
    (hfe : md.val.fileAt (defaultFileIndex md.val) = some fe) (hmin : md.val.minPieces fe = 0) :
    ∃ m', pieceFinishedAlert env h m = .error .requiredPieces m' := by
  obtain ⟨t, ht, hmd⟩ := hknows
  have hall : m.allPresent env h = true := by
    simp [Machine.allPresent, hrequired, ht, Torrent.hasAll]
  have hzero : m.globals.minPieces = 0 := by rw [hglobals]
  have hflag : m.globals.shouldUserSelectFiles = false := by rw [hglobals]
  obtain ⟨all, m₁, htell⟩ := @returns_tellProgress m env h t ht
  obtain ⟨rfl, htold⟩ := told_of_tellProgress htell
  rw [hall] at htell
  -- the metadata is handled again, and the window looks for an element that is not there
  obtain ⟨_, m₂, hagain⟩ := returns_handleAgain htold ht hpath fun _ _ =>
    ⟨md, hmd, fun hasked => absurd (hflag.symm.trans hasked) Bool.false_ne_true⟩
  rw [pieceFinishedAlert_of_advances ⟨m₁, htell, hagain⟩]
  refine prioritizeNextPieces_of_none ?_
  rcases handleAgain_zero htold ht hzero hagain with ⟨hlow, -⟩ |
    ⟨-, md', i, fe', hmd', hchoice, hfe', hmin₂, hfirst₂, hrequired₂, -⟩
  · exact absurd hlow hroom
  obtain rfl := Option.some.inj (hmd.symm.trans hmd')
  rw [Machine.choice?, if_neg (by rw [hflag]; exact Bool.false_ne_true)] at hchoice
  obtain rfl := Option.some.inj hchoice
  obtain rfl := Option.some.inj (hfe.symm.trans hfe')
  have hne : m₂.streamer.requiredPieces ≠ [] := by
    intro hnil
    have hlength := congrArg List.length (hrequired₂.symm.trans hnil)
    simp [headAndTail, piecesDownFrom] at hlength
  rw [Machine.nextPiece?, hfirst₂, hfirst, if_neg (not_not.mpr rfl), if_neg hne, hmin₂, hmin]
  rfl

/-- A streamer that is like a new one has no window and is not at a piece of a fast-forward: in
the alert of a piece, a new one asks for the file and then finds no element. -/
theorem Machine.IsLikeNew.window (hlike : m.IsLikeNew) (hs : m.streamer.Sound)
    (howed : m.streamer.session.outstanding = []) (htorrents : m.streamer.session.torrents = [])
    (hrequired : m.streamer.requiredPieces = []) :
    m.globals.minPieces = 0 ∧ m.streamer.firstPiece = -1 := by
  let md := Metadata.films 1 10 [5]
  let env := Env.calm md fun _ => false
  let n := m.streamer.session.nextHandle
  let a := Alert.pieceFinished n 0
  obtain ⟨m₁, hx, hm₁⟩ := linked_startLink md hs (by decide) (by simp [htorrents])
  obtain ⟨n₁, hy, hn₁⟩ := linked_init md n (by decide)
  obtain ⟨n₂, hn₂⟩ : ∃ n₂, dispatchAlert env a n₁ = .error .requiredPieces n₂ := by
    obtain ⟨t, ht, -⟩ := hn₁.knows
    obtain ⟨n₂, hstops⟩ := @pieceFinishedAlert_stops
      { n₁ with streamer := n₁.streamer.delivers a } env n md _
      hn₁.globals hn₁.requiredPieces hn₁.firstPiece (hn₁.sound.isSome_savePath ht) hn₁.knows
      (by simp [Env.LowSpace, env, Env.calm]) rfl (by decide)
    exact ⟨n₂, (hn₁.dispatchAlert_eq rfl env (Or.inl rfl)).trans hstops⟩
  have hshows := hlike.alert (e := startLink md) trivial hx hy hm₁.alertsLoopActive
    hn₁.alertsLoopActive env a
  rw [hn₂, hm₁.dispatchAlert_eq howed env (Or.inl rfl)] at hshows
  obtain ⟨m₂, hpiece, -⟩ := stopped_of_shownOf hshows
  obtain ⟨-, -, hfirst, ⟨hzero, -⟩ | ⟨-, hne, -⟩⟩ := pieceFinishedAlert_error hpiece
  · exact ⟨(congrArg _ hm₁.globals).symm.trans hzero, hm₁.firstPiece.symm.trans hfirst⟩
  · exact absurd (hm₁.requiredPieces.trans hrequired) hne

/-- A streamer that is like a new one is clean. -/
theorem clean_of_isLikeNew (hs : m.streamer.Sound) (hsettled : m.Settled)
    (hlike : m.IsLikeNew) : m.Clean := by
  have howed := hsettled.stopped.2
  obtain ⟨hrequired, hselected⟩ := hlike.kept hs
  have hflag := hlike.flag hselected
  have htorrents := hlike.torrents hs hflag
  obtain ⟨hmin, hfirst⟩ := hlike.window hs howed htorrents hrequired
  refine ⟨?_, htorrents, hrequired, hfirst, hlike.streaming hs howed htorrents hselected⟩
  calc m.globals = ⟨m.globals.minPieces, m.globals.selectedFileIndex,
        m.globals.shouldUserSelectFiles⟩ := rfl
    _ = {} := by rw [hmin, hselected, hflag]

/-! ## The equivalence -/

/-- **A settled streamer is like a new one** exactly when nothing is left over that a run looks
at before it sets it. -/
theorem isLikeNew_iff_clean (hm : Reachable m) (hsettled : m.Settled) :
    m.IsLikeNew ↔ m.Clean :=
  ⟨clean_of_isLikeNew hm.sound hsettled, fun hclean => isLikeNew_of_clean hclean hsettled⟩

/-- The start of a film of forty pieces. -/
def startOwnFilm : Event :=
  .start (.calm (Metadata.films 1 40 []) fun _ => false) "a.torrent".toList none none none

/-- The film is downloaded, and the main queue runs empty. -/
def finishOwnFilm : List Event :=
  [startOwnFilm, .alertsLoop [(.calm (Metadata.films 1 40 []) fun _ => true, .torrentFinished 0)],
    .mainQueue, .mainQueue, .mainQueue]

/-- The film is started again: its pieces are required after those of the finished run. -/
theorem not_isLikeNew_afterFinish :
    ¬ ∀ (m : Machine), Reachable m → m.Settled → m.IsLikeNew := by
  intro hall
  have hfinal : (finalState finishOwnFilm).map (fun m => (decide m.Settled,
      decide (m.shows [startOwnFilm] =
        (Machine.init m.streamer.session.nextHandle).shows [startOwnFilm]))) =
      some (true, false) := by decide +kernel
  obtain ⟨m, hm, hmap⟩ := Option.map_eq_some_iff.mp hfinal
  simp only [Prod.mk.injEq, decide_eq_true_eq, decide_eq_false_iff_not] at hmap
  obtain ⟨hsettled, hdiffers⟩ := hmap
  exact hdiffers (hall m (reachable_of_finalState hm) hsettled startOwnFilm [] trivial nofun)

/-- A link that is cancelled before its metadata is there leaves nothing over. -/
theorem isLikeNew_afterCancel :
    let env := Env.calm (Metadata.films 2 40 []) fun _ => false
    ∃ m, finalState [.start env "magnet:b".toList none none none, .cancel env true, .mainQueue,
      .mainQueue] = some m ∧ m.IsLikeNew := by
  intro env
  have hfinal : (finalState [.start env "magnet:b".toList none none none, .cancel env true,
      .mainQueue, .mainQueue]).map (fun m => (decide m.Settled, decide m.Clean)) =
      some (true, true) := by decide +kernel
  obtain ⟨m, hm, hmap⟩ := Option.map_eq_some_iff.mp hfinal
  simp only [Prod.mk.injEq, decide_eq_true_eq] at hmap
  obtain ⟨hsettled, hclean⟩ := hmap
  exact ⟨m, hm, (isLikeNew_iff_clean (reachable_of_finalState hm) hsettled).mpr hclean⟩

end BtDownloader
