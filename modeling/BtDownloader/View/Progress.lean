import BtDownloader.Client.Announce
import BtDownloader.View.Controller

set_option autoImplicit false

/-! # Reported progress

`pieceFinishedAlert` and `torrentFinishedAlert` both fill in `torrentStatus`, the second with a
shorter initialiser; the block that they put on the main queue hands over what stands there when
it is run.

* `reports_of_nothingWanted`: in which runs the progress that is handed over never goes back and
  ends with all bytes that are wanted.
-/

namespace BtDownloader

open Program

variable {m₀ m m' : Machine} {env : Env} {h : Nat} {u : Unit}

/-! ## What is claimed -/

/-- What can happen in a run once its pieces finish: an alert for the run's torrent, or a block of
the main queue. -/
inductive ProgressEvent
  | pieceFinished (env : Env)
  | torrentFinished (env : Env)
  | mainQueue

namespace ProgressEvent

def perform (h : Nat) : ProgressEvent → Handler Unit
  | .pieceFinished env => pieceFinishedAlert env h
  | .torrentFinished env => torrentFinishedAlert env h
  | .mainQueue => runMainQueue

/-- libtorrent's status of the torrent at an alert. -/
def status? (h : Nat) : ProgressEvent → Option TorrentStatus
  | .pieceFinished env => some (env.status h)
  | .torrentFinished env => some (env.status h)
  | .mainQueue => none

end ProgressEvent

/-- libtorrent's own `total_wanted_done` is a number of bytes, never exceeds `total_wanted` and
never decreases. -/
structure Grows (sts : List TorrentStatus) : Prop where
  nonneg : ∀ st ∈ sts, 0 ≤ st.totalWantedDone
  le : ∀ st ∈ sts, st.totalWantedDone ≤ st.totalWanted
  mono : sts.Pairwise fun st st' => st.totalWantedDone ≤ st'.totalWantedDone

/-- `total_wanted` and `total_wanted_done`. -/
def PTTorrentStatus.totals (status : PTTorrentStatus) : Int × Int :=
  (status.totalWanted, status.totalWantedDone)

def TorrentModel.totals (model : TorrentModel) : Int × Int :=
  (model.totalWanted, model.totalWantedDone)

/-- The statuses that were handed to the progress block from `m₀` to `m`. -/
def told (m₀ m : Machine) : List PTTorrentStatus :=
  (Controller.progressCalls (m₀.did m)).map (·.2)

/-- The models of a row after each of the blocks that copy a status into it. -/
def TorrentModel.history (model : TorrentModel) : List (Bool × PTTorrentStatus) → List TorrentModel
  | [] => []
  | (visible, status) :: blocks =>
      model.shows visible status :: (model.shows visible status).history blocks

/-- The progress never goes back, and never exceeds what is wanted. -/
structure Progresses (totals : List (Int × Int)) : Prop where
  mono : totals.Pairwise fun a b => a.2 ≤ b.2
  le : ∀ a ∈ totals, a.2 ≤ a.1

/-- What is claimed of a run of the events `es` from `m₀` to `m`: of the statuses that are handed
over, of those that are copied into a model, and, where a torrent has finished and nothing waits
to be handed over, of the last one. -/
structure Reports (h : Nat) (es : List ProgressEvent) (m₀ m : Machine) : Prop where
  progresses : Progresses ((told m₀ m).map PTTorrentStatus.totals)
  copied : ∀ (model : TorrentModel) (blocks : List (Bool × PTTorrentStatus)),
    blocks.map (·.2) = told m₀ m → Progresses ((model.history blocks).map TorrentModel.totals)
  last : ∀ env, .torrentFinished env ∈ es → .progress ∉ m.streamer.mainQueue →
    m.streamer.progressBlock ≠ none → ((told m₀ m).map PTTorrentStatus.totals).getLast? =
      some ((env.status h).totalWanted, (env.status h).totalWanted)

/-! ## What the events tell -/

/-- From `s` to `s'` no status is handed over. -/
def Streamer.Untold (s s' : Streamer) : Prop :=
  ∃ es, s'.effects = s.effects ++ es ∧ Controller.progressCalls es = []

theorem progressCalls_append (L L' : List Effect) :
    Controller.progressCalls (L ++ L') =
      Controller.progressCalls L ++ Controller.progressCalls L' := List.filterMap_append

theorem progressCalls_eq_nil {L : List Effect}
    (hL : ∀ e ∈ L, ∀ b status, e ≠ .calledProgress b status) :
    Controller.progressCalls L = [] := by
  refine List.filterMap_eq_nil_iff.mpr fun e he => ?_
  cases e with
  | calledProgress b status => exact absurd rfl (hL _ he b status)
  | _ => rfl

theorem Streamer.Untold.trans {s s' s'' : Streamer} (h : s.Untold s') (h' : s'.Untold s'') :
    s.Untold s'' := by
  obtain ⟨es, he, hes⟩ := h
  obtain ⟨es', he', hes'⟩ := h'
  refine ⟨es ++ es', by rw [he', he, List.append_assoc], ?_⟩
  rw [progressCalls_append, hes, hes', List.append_nil]

theorem Streamer.Untold.of_eq {s s' : Streamer} (heffects : s'.effects = s.effects) :
    s.Untold s' := ⟨[], by rw [heffects, List.append_nil], rfl⟩

theorem untold_sent (env : Env) (h : Nat) (cs : List TorrentCommand) (s : Streamer) :
    s.Untold (s.sent env h cs) := by
  refine ⟨cs.map (.command h), rfl, progressCalls_eq_nil fun e he b status => ?_⟩
  obtain ⟨c, -, rfl⟩ := List.mem_map.mp he
  simp

theorem Streamer.Untold.log {es : List Effect} (hes : Controller.progressCalls es = [])
    (s : Streamer) : s.Untold (s.log es) := ⟨es, rfl, hes⟩

theorem Selects.untold {g g' : Globals} {block? : Option SelectionBlock}
    {ti? : Option TorrentInfo} {i : Int} {es : List Effect} (h : Selects g block? ti? i g' es) :
    Controller.progressCalls es = [] := by
  cases h <;> rfl

theorem Chooses.untold {g g' : Globals} {block? : Option SelectionBlock}
    {ti? : Option TorrentInfo} {i : Int} {es : List Effect} (h : Chooses g block? ti? i g' es) :
    Controller.progressCalls es = [] := by
  cases h with
  | current => rfl
  | selects _ h => exact h.untold

theorem untold_prioritizeNextPieces (hx : prioritizeNextPieces env h m = .ok u m') :
    m.streamer.Untold m'.streamer ∧ m'.streamer.torrentStatus = m.streamer.torrentStatus ∧
      m'.streamer.progressBlock = m.streamer.progressBlock ∧
      m'.streamer.mainQueue = m.streamer.mainQueue := by
  obtain ⟨next, t, ps, -, -, -, -, -, hs'⟩ := prioritizeNextPieces_ok hx
  rw [hs']
  exact ⟨(untold_sent env h _ _).trans (.of_eq rfl), rfl, rfl, rfl⟩

/-- The metadata alert hands over no status; it leaves everything that a block of the main queue
looks at, or the progress block is dropped. -/
theorem untold_metadataReceivedAlert (hx : metadataReceivedAlert env h m = .ok u m') :
    m.streamer.Untold m'.streamer ∧ (m'.streamer.progressBlock = none ∨
      m'.streamer.torrentStatus = m.streamer.torrentStatus ∧
        m'.streamer.progressBlock = m.streamer.progressBlock ∧
        m'.streamer.mainQueue = m.streamer.mainQueue) := by
  obtain ⟨-, -, ⟨-, m₁, -, hs₁, hcancel⟩ | ⟨-, m₁, -, hs₁, hselect⟩⟩ := metadataReceivedAlert_ok hx
  · obtain ⟨-, session, es, hes, hs', -⟩ := cancel_keeping_ok hcancel
    -- no room: the failure block and the cancel tell no progress
    have hfail : m.streamer.Untold m₁.streamer := by
      rw [hs₁]
      have hneeds : m.streamer.Untold (m.streamer.needs (env.status h).totalWanted) := .of_eq rfl
      refine hneeds.trans (.log ?_ _)
      cases m.streamer.failureBlock <;> rfl
    refine ⟨hfail.trans ?_, Or.inl ?_⟩
    · refine ⟨es ++ [.cancelled, .dispatched (.networkActivityIndicator false)], ?_, ?_⟩
      · rw [hs']
        simp [Streamer.cancelled, Streamer.dispatch, Streamer.log, Streamer.reset,
          Streamer.withSession]
      · have hteardown : Controller.progressCalls es = [] := by
          refine progressCalls_eq_nil fun e he b status heq => ?_
          rw [heq] at he
          exact hes _ he
        rw [progressCalls_append, hteardown]
        rfl
    · rw [hs']
      rfl
  · obtain ⟨t, md, i, g, es, fe, -, -, hselects, -, -, hs'⟩ := selectFile_ok hselect
    rw [hs', hs₁]
    refine ⟨?_, Or.inr ⟨rfl, rfl, rfl⟩⟩
    have hlog := Streamer.Untold.log hselects.untold
      (m.streamer.needs (env.status h).totalWanted)
    have hneeds : m.streamer.Untold (m.streamer.needs (env.status h).totalWanted) := .of_eq rfl
    exact hneeds.trans (hlog.trans ((untold_sent env h _ _).trans (.of_eq rfl)))

/-- **What a piece-finished alert tells**: libtorrent's totals wait to be handed over, or the run
is cancelled. -/
theorem pieceFinished_tells (hx : pieceFinishedAlert env h m = .ok u m') :
    m.streamer.Untold m'.streamer ∧ (m'.streamer.progressBlock = none ∨
      m'.streamer.progressBlock = m.streamer.progressBlock ∧
        m'.streamer.torrentStatus.totals =
          ((env.status h).totalWanted, (env.status h).totalWantedDone) ∧
        .progress ∈ m'.streamer.mainQueue) := by
  obtain ⟨-, n, m₁, -, hs₁, hcases⟩ := pieceFinishedAlert_ok hx
  -- the totals of now are noted and a block for them queued, whatever follows
  have htold₁ : m.streamer.Untold m₁.streamer := by
    rw [hs₁]
    exact ⟨[.dispatched .progress], rfl, rfl⟩
  have htotals₁ : m₁.streamer.torrentStatus.totals =
      ((env.status h).totalWanted, (env.status h).totalWantedDone) := by
    rw [hs₁]
    rfl
  have hblock₁ : m₁.streamer.progressBlock = m.streamer.progressBlock := by
    rw [hs₁]
    rfl
  have hqueue₁ : .progress ∈ m₁.streamer.mainQueue := by
    rw [hs₁]
    exact List.mem_append_right _ List.mem_cons_self
  rcases hcases with ⟨-, -, hs'⟩ | ⟨-, m₂, hnext, hagain⟩
  · rw [hs']
    exact ⟨htold₁, Or.inr ⟨hblock₁, htotals₁, hqueue₁⟩⟩
  · obtain ⟨htold, hstatus, hblock, hqueue⟩ := untold_prioritizeNextPieces hnext
    rw [hstatus, hblock, hqueue]
    rcases hagain with ⟨-, -, hs₂⟩ | ⟨-, m₃, -, hs₃, hmeta⟩
    · rw [hs₂] at htold ⊢
      exact ⟨htold₁.trans htold, Or.inr ⟨hblock₁, htotals₁, hqueue₁⟩⟩
    · obtain ⟨htold₂, hkept⟩ := untold_metadataReceivedAlert hmeta
      rw [hs₃] at htold₂ hkept
      refine ⟨htold₁.trans (htold₂.trans htold), hkept.imp_right ?_⟩
      rintro ⟨hstatus₂, hblock₂, hqueue₂⟩
      rw [hstatus₂, hblock₂, hqueue₂]
      exact ⟨hblock₁, htotals₁, hqueue₁⟩

theorem untold_processTorrent (hx : processTorrent env h m = .ok u m') :
    m.streamer.Untold m'.streamer ∧
      m'.streamer.progressBlock = m.streamer.progressBlock := by
  rcases processTorrent_ok hx with ⟨-, rfl⟩ |
    ⟨-, t, md, fe, i, es, -, -, -, hchooses, hs'⟩
  · exact ⟨.of_eq rfl, rfl⟩
  · have hlog := Streamer.Untold.log hchooses.untold m.streamer
    have hstreams : m.streamer.Untold ((m.streamer.log es).streams (env.status h) fe) :=
      hlog.trans (.of_eq rfl)
    rw [hs']
    split
    · refine ⟨hstreams.trans ?_, rfl⟩
      exact ⟨[_], rfl, rfl⟩
    · exact ⟨hstreams, rfl⟩

/-- **What a torrent-finished alert tells**: neither total is in the initialiser. -/
theorem torrentFinished_tells (hx : torrentFinishedAlert env h m = .ok u m') :
    m.streamer.Untold m'.streamer ∧ m'.streamer.progressBlock = m.streamer.progressBlock ∧
      m'.streamer.torrentStatus.totals = (0, 0) ∧ .progress ∈ m'.streamer.mainQueue ∧
      m'.streamer.session.find? h = none := by
  obtain ⟨-, m₁, hprocess, -, hs'⟩ := torrentFinishedAlert_ok hx
  obtain ⟨htold₁, hblock₁⟩ := untold_processTorrent hprocess
  rw [hs']
  refine ⟨htold₁.trans ?_, hblock₁, rfl, ?_, find?_removeTorrent _ h⟩
  · refine ⟨[.dispatched .progress, .dispatched (.networkActivityIndicator false),
      .command h (.pause true), .removed h, .finished h], ?_, rfl⟩
    simp [Streamer.finish, Streamer.progress, Streamer.dispatch]
  · refine List.mem_append_left _ (List.mem_append_right _ List.mem_cons_self)

/-- **What a block of the main queue hands over**: the status that stands there now. -/
theorem mainQueue_tells (hx : runMainQueue m = .ok u m') :
    m'.streamer.torrentStatus = m.streamer.torrentStatus ∧
      m'.streamer.progressBlock = m.streamer.progressBlock ∧
      m'.streamer.session = m.streamer.session ∧
      ((m.streamer.Untold m'.streamer ∧ (m.streamer.progressBlock = none ∨
          (.progress ∈ m'.streamer.mainQueue ↔ .progress ∈ m.streamer.mainQueue))) ∨
        (.progress ∈ m.streamer.mainQueue ∧ ∃ b, m.streamer.progressBlock = some b ∧
          m'.streamer.effects =
            m.streamer.effects ++ [.calledProgress b m.streamer.torrentStatus])) := by
  obtain ⟨-, ⟨-, hs'⟩ | ⟨b, rest, hqueue, hs'⟩⟩ := runMainQueue_ok hx
  · rw [hs']
    exact ⟨rfl, rfl, rfl, Or.inl ⟨.of_eq rfl, Or.inr Iff.rfl⟩⟩
  · rw [hs']
    refine ⟨rfl, rfl, rfl, ?_⟩
    cases b with
    | progress =>
        cases hblock : m.streamer.progressBlock with
        | none =>
            refine Or.inl ⟨⟨[], ?_, rfl⟩, Or.inl rfl⟩
            simp [Streamer.mainEffects, hblock, Streamer.log]
        | some b =>
            refine Or.inr ⟨by rw [hqueue]; exact List.mem_cons_self, b, rfl, ?_⟩
            simp [Streamer.mainEffects, hblock, Streamer.log]
    -- the other blocks report no progress
    | readyToPlay filePath =>
        refine Or.inl ⟨⟨m.streamer.mainEffects (.readyToPlay filePath), rfl, ?_⟩, Or.inr ?_⟩
        · cases hblock : m.streamer.readyToPlayBlock <;> simp [Streamer.mainEffects, hblock,
            Controller.progressCalls]
        · rw [hqueue]
          simp [Streamer.log]
    | networkActivityIndicator visible =>
        refine Or.inl ⟨⟨[], rfl, rfl⟩, Or.inr ?_⟩
        rw [hqueue]
        simp [Streamer.log]

/-! ## Runs -/

/-- The totals that were handed over from `m₀` to `m`. -/
def toldTotals (m₀ m : Machine) : List (Int × Int) := (told m₀ m).map PTTorrentStatus.totals

/-- The effects of `m₀` are still the first ones in `m`. -/
def Machine.Behind (m₀ m : Machine) : Prop :=
  m₀.streamer.effects.length ≤ m.streamer.effects.length

theorem toldTotals_append {es : List Effect} (hbehind : m₀.Behind m)
    (heffects : m'.streamer.effects = m.streamer.effects ++ es) :
    m₀.Behind m' ∧ toldTotals m₀ m' =
      toldTotals m₀ m ++ (Controller.progressCalls es).map (·.2.totals) := by
  unfold Machine.Behind at hbehind ⊢
  constructor
  · rw [heffects, List.length_append]
    omega
  · rw [toldTotals, told, Machine.did, heffects, List.drop_append_of_le_length hbehind,
      progressCalls_append, List.map_append, List.map_append, toldTotals, told, Machine.did,
      List.map_map (l := Controller.progressCalls es)]
    rfl

theorem toldTotals_untold (hbehind : m₀.Behind m) (htold : m.streamer.Untold m'.streamer) :
    m₀.Behind m' ∧ toldTotals m₀ m' = toldTotals m₀ m := by
  obtain ⟨es, he, hes⟩ := htold
  obtain ⟨hbehind', htotals⟩ := toldTotals_append hbehind he
  refine ⟨hbehind', ?_⟩
  rw [htotals, hes, List.map_nil, List.append_nil]

/-- The invariant of a run in which libtorrent's count has come to `d`: what was handed over never
went back and is at most `d`, and so is what waits to be handed over. -/
structure Reporting (m₀ : Machine) (d : Int) (m : Machine) : Prop where
  behind : m₀.Behind m
  nonneg : 0 ≤ d
  progresses : Progresses (toldTotals m₀ m)
  le : ∀ a ∈ toldTotals m₀ m, a.2 ≤ d
  waiting : .progress ∈ m.streamer.mainQueue → m.streamer.progressBlock ≠ none →
    m.streamer.torrentStatus.totals.2 ≤ m.streamer.torrentStatus.totals.1 ∧
      m.streamer.torrentStatus.totals.2 ≤ d ∧
      ∀ a ∈ toldTotals m₀ m, a.2 ≤ m.streamer.torrentStatus.totals.2

theorem Reporting.mono {d d' : Int} (hm : Reporting m₀ d m) (hle : d ≤ d') :
    Reporting m₀ d' m where
  behind := hm.behind
  nonneg := hm.nonneg.trans hle
  progresses := hm.progresses
  le a ha := (hm.le a ha).trans hle
  waiting hqueue hblock := by
    obtain ⟨h₁, h₂, h₃⟩ := hm.waiting hqueue hblock
    exact ⟨h₁, h₂.trans hle, h₃⟩

/-- An alert that leaves the totals `st` to be handed over, or drops the block. -/
theorem Reporting.alert {d : Int} (st : Int × Int) (hm : Reporting m₀ d m) (hd : d ≤ st.2)
    (hle : st.2 ≤ st.1) (htold : m.streamer.Untold m'.streamer)
    (hkept : m'.streamer.progressBlock = none ∨ m'.streamer.torrentStatus.totals = st) :
    Reporting m₀ st.2 m' := by
  obtain ⟨hbehind, htotals⟩ := toldTotals_untold hm.behind htold
  refine ⟨hbehind, hm.nonneg.trans hd, ?_, ?_, fun _ hblock => ?_⟩
  · rw [htotals]
    exact hm.progresses
  · rw [htotals]
    exact fun a ha => (hm.le a ha).trans hd
  · have hst := hkept.resolve_left hblock
    rw [htotals, hst]
    exact ⟨hle, le_rfl, fun a ha => (hm.le a ha).trans hd⟩

theorem Reporting.mainQueue {d : Int} (hm : Reporting m₀ d m) (hx : runMainQueue m = .ok u m') :
    Reporting m₀ d m' := by
  obtain ⟨hstatus, hblock, -, ⟨htold, hqueue⟩ | ⟨hqueue, b, hb, heffects⟩⟩ := mainQueue_tells hx
  · obtain ⟨hbehind, htotals⟩ := toldTotals_untold hm.behind htold
    refine ⟨hbehind, hm.nonneg, by rw [htotals]; exact hm.progresses, by rw [htotals]; exact hm.le,
      fun hmem hne => ?_⟩
    rw [hblock] at hne
    rw [hstatus, htotals]
    exact hm.waiting ((hqueue.resolve_left hne).mp hmem) hne
  · -- one more report: no earlier one was above the totals that wait
    have hne : m.streamer.progressBlock ≠ none := by
      rw [hb]
      simp
    obtain ⟨hle, hd, hlast⟩ := hm.waiting hqueue hne
    obtain ⟨hbehind, htotals⟩ := toldTotals_append hm.behind heffects
    have hone : (Controller.progressCalls [.calledProgress b m.streamer.torrentStatus]).map
        (·.2.totals) = [m.streamer.torrentStatus.totals] := rfl
    rw [hone] at htotals
    have hmem : ∀ a ∈ toldTotals m₀ m', a ∈ toldTotals m₀ m ∨
        a = m.streamer.torrentStatus.totals := by
      intro a ha
      rw [htotals, List.mem_append, List.mem_singleton] at ha
      exact ha
    refine ⟨hbehind, hm.nonneg, ⟨?_, fun a ha => ?_⟩, fun a ha => ?_, fun _ _ => ?_⟩
    · rw [htotals, List.pairwise_append]
      refine ⟨hm.progresses.mono, List.pairwise_singleton _ _, fun a ha b hb => ?_⟩
      obtain rfl := List.mem_singleton.mp hb
      exact hlast a ha
    · rcases hmem a ha with ha | rfl
      · exact hm.progresses.le a ha
      · exact hle
    · rcases hmem a ha with ha | rfl
      · exact hm.le a ha
      · exact hd
    · rw [hstatus]
      refine ⟨hle, hd, fun a ha => ?_⟩
      rcases hmem a ha with ha | rfl
      · exact hlast a ha
      · exact le_rfl

/-- The condition: where the torrent finishes, no byte of it is wanted. -/
def NothingWanted (h : Nat) (es : List ProgressEvent) : Prop :=
  ∀ env, .torrentFinished env ∈ es → (env.status h).totalWanted = 0

/-- **The step lemma.** -/
theorem reporting_step {e : ProgressEvent} {d : Int} (hm : Reporting m₀ d m)
    (hst : ∀ st ∈ e.status? h, d ≤ st.totalWantedDone ∧ st.totalWantedDone ≤ st.totalWanted)
    (hnothing : NothingWanted h [e]) (hx : e.perform h m = .ok () m') :
    Reporting m₀ (((e.status? h).map (·.totalWantedDone)).getD d) m' := by
  cases e with
  | pieceFinished env =>
      obtain ⟨hd, hle⟩ := hst _ rfl
      obtain ⟨htold, hkept⟩ := pieceFinished_tells hx
      exact hm.alert ((env.status h).totalWanted, (env.status h).totalWantedDone) hd hle htold
        (hkept.imp_right fun hkept => hkept.2.1)
  | torrentFinished env =>
      obtain ⟨hd, hle⟩ := hst _ rfl
      have hzero := hnothing env List.mem_cons_self
      have hnonneg := hm.nonneg
      obtain ⟨htold, -, htotals, -, -⟩ := torrentFinished_tells hx
      have hreports := hm.alert (0, 0) (by dsimp only; omega) le_rfl htold (Or.inr htotals)
      exact hreports.mono (by show (0 : Int) ≤ (env.status h).totalWantedDone; omega)
  | mainQueue => exact hm.mainQueue hx

/-- **The run lemma**: the progress never goes back where nothing finishes that is wanted. -/
theorem reporting_run {es : List ProgressEvent} {d : Int} (hm : Reporting m₀ d m)
    (hgrows : Grows (es.filterMap (ProgressEvent.status? h)))
    (hd : ∀ st ∈ es.filterMap (ProgressEvent.status? h), d ≤ st.totalWantedDone)
    (hnothing : NothingWanted h es) (hrun : each (ProgressEvent.perform h) es m = .ok () m') :
    ∃ d', Reporting m₀ d' m' := by
  induction es generalizing m d with
  | nil =>
      cases hrun
      exact ⟨d, hm⟩
  | cons e es ih =>
      obtain ⟨m₁, h₁, hrest⟩ := each_cons_ok.mp hrun
      have hnothing' : NothingWanted h es := fun env hmem =>
        hnothing env (List.mem_cons_of_mem e hmem)
      have hone : NothingWanted h [e] := fun env hmem =>
        hnothing env (by rw [List.mem_singleton.mp hmem]; exact List.mem_cons_self)
      have hcons : (e :: es).filterMap (ProgressEvent.status? h) =
          (e.status? h).toList ++ es.filterMap (ProgressEvent.status? h) := by
        rw [List.filterMap_cons]
        cases e.status? h <;> rfl
      rw [hcons] at hgrows hd
      obtain ⟨hnonneg, hle, hmono⟩ := hgrows
      rw [List.pairwise_append] at hmono
      have hst : ∀ st ∈ e.status? h, d ≤ st.totalWantedDone ∧
          st.totalWantedDone ≤ st.totalWanted := fun st hst => by
        have hmem := List.mem_append_left (es.filterMap (ProgressEvent.status? h))
          (Option.mem_toList.mpr hst)
        exact ⟨hd st hmem, hle st hmem⟩
      refine ih (reporting_step hm hst hone h₁) ⟨fun st hmem => ?_, fun st hmem => ?_, hmono.2.1⟩
        (fun st hmem => ?_) hnothing' hrest
      · exact hnonneg st (List.mem_append_right _ hmem)
      · exact hle st (List.mem_append_right _ hmem)
      · -- the status of the first event comes before the others
        cases hstatus : e.status? h with
        | none => exact hd st (List.mem_append_right _ hmem)
        | some st₀ => exact hmono.2.2 st₀ (Option.mem_toList.mpr hstatus) st hmem

/-! ## The last status -/

/-- A torrent has finished, and its empty totals wait to be handed over or were the last ones. -/
structure FinishedAt (m₀ : Machine) (h : Nat) (m : Machine) : Prop where
  behind : m₀.Behind m
  gone : m.streamer.session.find? h = none
  zero : m.streamer.torrentStatus.totals = (0, 0)
  last : m.streamer.progressBlock = none ∨ .progress ∈ m.streamer.mainQueue ∨
    (toldTotals m₀ m).getLast? = some (0, 0)

theorem FinishedAt.mainQueue (hm : FinishedAt m₀ h m) (hx : runMainQueue m = .ok u m') :
    FinishedAt m₀ h m' := by
  obtain ⟨hstatus, hblock, hsession, ⟨htold, hqueue⟩ | ⟨hqueue, b, hb, heffects⟩⟩ :=
    mainQueue_tells hx
  · obtain ⟨hbehind, htotals⟩ := toldTotals_untold hm.behind htold
    refine ⟨hbehind, by rw [hsession]; exact hm.gone, by rw [hstatus]; exact hm.zero, ?_⟩
    rw [hblock, htotals]
    rcases hqueue with hnone | hqueue
    · exact Or.inl hnone
    · rw [hqueue]
      exact hm.last
  · obtain ⟨hbehind, htotals⟩ := toldTotals_append hm.behind heffects
    refine ⟨hbehind, by rw [hsession]; exact hm.gone, by rw [hstatus]; exact hm.zero,
      Or.inr (Or.inr ?_)⟩
    have hone : (Controller.progressCalls [.calledProgress b m.streamer.torrentStatus]).map
        (·.2.totals) = [m.streamer.torrentStatus.totals] := rfl
    rw [htotals, hone, List.getLast?_concat, hm.zero]

/-- No alert of a torrent that is gone is handled. -/
theorem FinishedAt.run {es : List ProgressEvent} (hm : FinishedAt m₀ h m)
    (hrun : each (ProgressEvent.perform h) es m = .ok () m') : FinishedAt m₀ h m' := by
  induction es generalizing m with
  | nil =>
      cases hrun
      exact hm
  | cons e es ih =>
      obtain ⟨m₁, h₁, hrest⟩ := each_cons_ok.mp hrun
      refine ih ?_ hrest
      cases e with
      | pieceFinished env =>
          obtain ⟨⟨t, ht⟩, -⟩ := pieceFinishedAlert_ok h₁
          rw [hm.gone] at ht
          cases ht
      | torrentFinished env =>
          obtain ⟨⟨t, ht⟩, -⟩ := torrentFinishedAlert_ok h₁
          rw [hm.gone] at ht
          cases ht
      | mainQueue => exact hm.mainQueue h₁

theorem behind_step {e : ProgressEvent} (hbehind : m₀.Behind m) (hx : e.perform h m = .ok () m') :
    m₀.Behind m' := by
  cases e with
  | pieceFinished env => exact (toldTotals_untold hbehind (pieceFinished_tells hx).1).1
  | torrentFinished env => exact (toldTotals_untold hbehind (torrentFinished_tells hx).1).1
  | mainQueue =>
      obtain ⟨-, -, -, ⟨htold, -⟩ | ⟨-, b, -, heffects⟩⟩ := mainQueue_tells hx
      · exact (toldTotals_untold hbehind htold).1
      · exact (toldTotals_append hbehind heffects).1

/-- After a finish, whatever happened before it. -/
theorem finishedAt_of_mem {es : List ProgressEvent} (hbehind : m₀.Behind m)
    (hmem : .torrentFinished env ∈ es) (hrun : each (ProgressEvent.perform h) es m = .ok () m') :
    FinishedAt m₀ h m' := by
  obtain ⟨es₁, es₂, rfl⟩ := List.append_of_mem hmem
  obtain ⟨m₁, h₁, hrest⟩ := each_append_ok.mp hrun
  obtain ⟨m₂, h₂, hrest⟩ := each_cons_ok.mp hrest
  have hbehind₁ : m₀.Behind m₁ :=
    keeps_each (I := m₀.Behind) (fun e _ s hs u s' hx => behind_step hs hx) m hbehind () m₁ h₁
  obtain ⟨htold, -, hzero, hqueue, hgone⟩ := torrentFinished_tells h₂
  exact FinishedAt.run ⟨(toldTotals_untold hbehind₁ htold).1, hgone, hzero, Or.inr (Or.inl hqueue)⟩
    hrest

/-! ## Which runs report the progress -/

theorem TorrentModel.totals_history (model : TorrentModel)
    (blocks : List (Bool × PTTorrentStatus)) :
    (model.history blocks).map TorrentModel.totals =
      (blocks.map (·.2)).map PTTorrentStatus.totals := by
  induction blocks generalizing model with
  | nil => rfl
  | cons block blocks ih =>
      obtain ⟨visible, status⟩ := block
      have htotals : (model.shows visible status).totals = status.totals := rfl
      rw [history, List.map_cons, List.map_cons, List.map_cons, ih, htotals]

theorem reporting_start (hqueue : .progress ∉ m₀.streamer.mainQueue) : Reporting m₀ 0 m₀ := by
  have hnil : toldTotals m₀ m₀ = [] := by
    rw [toldTotals, told, Machine.did, List.drop_length]
    rfl
  refine ⟨le_rfl, le_rfl, ⟨?_, ?_⟩, ?_, fun hmem => absurd hmem hqueue⟩
  · rw [hnil]
    exact List.Pairwise.nil
  · rw [hnil]
    simp
  · rw [hnil]
    simp

/-- **The reported progress is monotone** in every run in which no torrent finishes of which bytes
are wanted; and where everything was handed over, in no other. -/
theorem reports_of_nothingWanted {es : List ProgressEvent}
    (hqueue : .progress ∉ m₀.streamer.mainQueue)
    (hgrows : Grows (es.filterMap (ProgressEvent.status? h)))
    (hrun : each (ProgressEvent.perform h) es m₀ = .ok () m) :
    (NothingWanted h es → Reports h es m₀ m) ∧
      (.progress ∉ m.streamer.mainQueue → m.streamer.progressBlock ≠ none →
        Reports h es m₀ m → NothingWanted h es) := by
  -- once the torrent has finished, the last totals that are handed over are 0 and 0
  have hlast : ∀ env, .torrentFinished env ∈ es → .progress ∉ m.streamer.mainQueue →
      m.streamer.progressBlock ≠ none → (toldTotals m₀ m).getLast? = some (0, 0) := by
    intro env hmem hhanded hblock
    have hbehind : m₀.Behind m₀ := le_rfl
    have hfinished := finishedAt_of_mem hbehind hmem hrun
    exact (hfinished.last.resolve_left hblock).resolve_left hhanded
  constructor
  · intro hnothing
    obtain ⟨d, hreporting⟩ := reporting_run (reporting_start hqueue) hgrows hgrows.nonneg
      hnothing hrun
    refine ⟨hreporting.progresses, fun model blocks hblocks => ?_,
      fun env hmem hhanded hblock => ?_⟩
    · rw [TorrentModel.totals_history, hblocks]
      exact hreporting.progresses
    · rw [hnothing env hmem]
      exact hlast env hmem hhanded hblock
  · intro hhanded hblock hreports env hmem
    have hwanted := (hlast env hmem hhanded hblock).symm.trans
      (hreports.last env hmem hhanded hblock)
    exact (Prod.mk.inj (Option.some.inj hwanted)).1.symm

/-- The answers for a film of forty bytes of which `done` are there. -/
def Env.counting (done : Int) : Env :=
  { Env.calm (Metadata.films 1 40 []) fun _ => false with
    status := fun _ => { totalWanted := 40, totalWantedDone := done } }

/-- The state after the start of the film. -/
def filmStarted : Option Machine :=
  finalState [.start (.calm (Metadata.films 1 40 []) fun _ => false) "a.torrent".toList
    (some ⟨0, 0⟩) none none]

/-- Twelve bytes are reported, and after the finish none of none. -/
theorem not_reports_finish :
    ¬ ∀ (h : Nat) (es : List ProgressEvent) (m₀ m : Machine), .progress ∉ m₀.streamer.mainQueue →
      Grows (es.filterMap (ProgressEvent.status? h)) →
        each (ProgressEvent.perform h) es m₀ = .ok () m → Reports h es m₀ m := by
  intro hall
  let es : List ProgressEvent := [.mainQueue, .pieceFinished (.counting 12), .mainQueue,
    .torrentFinished (.counting 40), .mainQueue]
  have hstart : filmStarted.map (fun m => decide (.progress ∈ m.streamer.mainQueue)) =
      some false := by decide +kernel
  have hfinal : filmStarted.map (fun m₀ => (after (each (ProgressEvent.perform 0) es) m₀).map
      fun m => toldTotals m₀ m) = some (some [(40, 12), (0, 0)]) := by decide +kernel
  obtain ⟨m₀, hm₀, hqueue⟩ := Option.map_eq_some_iff.mp hstart
  rw [hm₀, Option.map_some, Option.some.injEq] at hfinal
  obtain ⟨m, hm, htold⟩ := Option.map_eq_some_iff.mp hfinal
  have hreports := hall 0 es m₀ m (of_decide_eq_false hqueue)
    ⟨by decide, by decide, by decide⟩ (after_eq_some.mp hm)
  have hmono := hreports.progresses.mono
  rw [show (told m₀ m).map PTTorrentStatus.totals = _ from htold] at hmono
  exact absurd hmono (by decide)

/-- Two pieces finish, and both blocks run after the second. -/
theorem reports_pieces :
    let es : List ProgressEvent := [.pieceFinished (.counting 12), .pieceFinished (.counting 13),
      .mainQueue, .mainQueue, .mainQueue]
    ∃ m₀ m, filmStarted = some m₀ ∧ each (ProgressEvent.perform 0) es m₀ = .ok () m ∧
      toldTotals m₀ m = [(40, 13), (40, 13)] ∧ Reports 0 es m₀ m := by
  intro es
  have hstart : filmStarted.map (fun m => decide (.progress ∈ m.streamer.mainQueue)) =
      some false := by decide +kernel
  have hfinal : filmStarted.map (fun m₀ => (after (each (ProgressEvent.perform 0) es) m₀).map
      fun m => toldTotals m₀ m) = some (some [(40, 13), (40, 13)]) := by decide +kernel
  obtain ⟨m₀, hm₀, hqueue⟩ := Option.map_eq_some_iff.mp hstart
  rw [hm₀, Option.map_some, Option.some.injEq] at hfinal
  obtain ⟨m, hm, htold⟩ := Option.map_eq_some_iff.mp hfinal
  refine ⟨m₀, m, hm₀, after_eq_some.mp hm, htold, ?_⟩
  refine (reports_of_nothingWanted (of_decide_eq_false hqueue) ⟨by decide, by decide, by decide⟩
    (after_eq_some.mp hm)).1 fun env hmem => ?_
  simp [es] at hmem

end BtDownloader
