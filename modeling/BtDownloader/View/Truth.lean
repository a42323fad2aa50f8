import BtDownloader.View.Agreement
import BtDownloader.Client.Resources

set_option autoImplicit false

/-! # What the list says about the downloads

The state of a row is written by taps and by the blocks that progress blocks put on the main
queue. Nothing is written when a start fails or a download finishes, and a block may be run after
a cancel.

* `truthful_of_honest`: in which runs of a fixed list every row tells whether its download runs.
-/

namespace BtDownloader

open Program

variable {c c' : Controller} {m m' : Machine} {u : Unit}

/-! ## What is claimed -/

namespace Controller

/-- **The list tells the truth**: a row is closed exactly where no download of its streamer is
running, and the start button of a closed row is enabled. -/
structure Truthful (c : Controller) : Prop where
  closed_iff : ∀ row i model, c.model? row = some (i, model) →
    (model.torrentstate = .closed ↔ ¬ c.running row)
  enabled : ∀ row i model, c.model? row = some (i, model) → model.torrentstate = .closed →
    c.startButtonEnabled (c.cellForRow row) = true

/-- No two rows of the list are shown in the same cell. -/
def Apart (c : Controller) : Prop :=
  ∀ row < c.torrentmodels.length, ∀ row' < c.torrentmodels.length,
    c.cellForRow row = c.cellForRow row' → row = row'

instance (c : Controller) : Decidable c.Apart :=
  inferInstanceAs (Decidable (∀ row < c.torrentmodels.length, ∀ row' < c.torrentmodels.length,
    c.cellForRow row = c.cellForRow row' → row = row'))

end Controller

/-! ## Runs that go on -/

/-- The alert does not end the live run: neither does its torrent finish, nor is there too little
space when its metadata is handled. -/
def SparesRun (m : Machine) : Env × Alert → Prop
  | (_, .torrentFinished h) => m.streamer.live ≠ some h
  | (env, .metadataReceived h) => env.LowSpace h → m.streamer.live = none
  | (env, .pieceFinished h _) => m.allPresent env h = true → m.globals.minPieces = 0 →
      env.LowSpace h → m.streamer.live = none
  | (_, .saveResumeData _) => True

instance (m : Machine) : (d : Env × Alert) → Decidable (SparesRun m d)
  | (_, .torrentFinished h) => inferInstanceAs (Decidable (m.streamer.live ≠ some h))
  | (env, .metadataReceived h) =>
      inferInstanceAs (Decidable (env.LowSpace h → m.streamer.live = none))
  | (env, .pieceFinished h _) => inferInstanceAs (Decidable (m.allPresent env h = true →
      m.globals.minPieces = 0 → env.LowSpace h → m.streamer.live = none))
  | (_, .saveResumeData _) => .isTrue trivial

theorem live_metadataReceivedAlert {env : Env} {h : Nat}
    (hspares : env.LowSpace h → m.streamer.live = none)
    (hx : metadataReceivedAlert env h m = .ok u m') : m'.streamer.live = m.streamer.live := by
  obtain ⟨-, -, ⟨hlow, m₁, -, -, hcancel⟩ | ⟨-, m₁, -, hs₁, hselect⟩⟩ := metadataReceivedAlert_ok hx
  · rw [live_cancel hcancel, hspares hlow]
  · calc m'.streamer.live = m₁.streamer.live := (frames_selectFile hselect).live_eq
      _ = m.streamer.live := by rw [hs₁]; rfl

theorem live_pieceFinishedAlert {env : Env} {h piece : Nat}
    (hspares : SparesRun m (env, .pieceFinished h piece))
    (hx : pieceFinishedAlert env h m = .ok u m') : m'.streamer.live = m.streamer.live := by
  obtain ⟨-, n, m₁, -, hs₁, hcases⟩ := pieceFinishedAlert_ok hx
  have hlive₁ : m₁.streamer.live = m.streamer.live := by
    rw [hs₁]
    exact (frames_progress _ _ _).live_eq
  rcases hcases with ⟨-, -, hs'⟩ | ⟨hall, m₂, hnext, hagain⟩
  · rw [hs', hlive₁]
  · rw [(frames_prioritizeNextPieces hnext).live_eq, ← hlive₁]
    rcases hagain with ⟨-, -, hs₂⟩ | ⟨hzero, m₃, -, hs₃, hmeta⟩
    · rw [hs₂]
    · rw [← hs₃]
      refine live_metadataReceivedAlert (fun hlow => ?_) hmeta
      rw [hs₃, hlive₁]
      exact hspares hall hzero hlow

/-- An alert that spares the live run leaves it as it is. -/
theorem live_sparing {d : Env × Alert}
    (hspares : m.streamer.session.canDeliver d.2 = true → SparesRun m d)
    (hx : dispatchAlert d.1 d.2 m = .ok u m') : m'.streamer.live = m.streamer.live := by
  obtain ⟨env, a⟩ := d
  rw [dispatchAlert_apply] at hx
  split at hx
  · rename_i hcan
    let m₁ : Machine := { m with streamer := m.streamer.delivers a }
    have hspares₁ : SparesRun m₁ (env, a) := hspares hcan
    have hlive₁ : m₁.streamer.live = m.streamer.live := rfl
    rw [← hlive₁]
    cases a with
    | metadataReceived h => exact live_metadataReceivedAlert hspares₁ hx
    | pieceFinished h piece => exact live_pieceFinishedAlert hspares₁ hx
    | torrentFinished h =>
        obtain ⟨-, m₂, hprocess, -, hs'⟩ := torrentFinishedAlert_ok hx
        have hlive₂ := (processTorrent_keeps hprocess).1
        rw [hs', live_finish, hlive₂, if_neg hspares₁]
    | saveResumeData h =>
        obtain ⟨st, m₂, h₂, k₂⟩ := bind_eq_ok.mp hx
        obtain ⟨-, -, rfl⟩ := statusOf_eq_ok.mp h₂
        exact live_resumeDataReadyAlertWithData k₂
  · cases hx
    rfl

theorem live_spared {e : Delivery} (hspares : AlertsMeet SparesRun m e.val)
    (hx : step e.val m = .ok u m') : m'.streamer.live = m.streamer.live := by
  obtain ⟨e, he⟩ := e
  cases e with
  | alertsLoop batch =>
      rcases alertsLoop_ok hx with ⟨hactive, hbatch⟩ | ⟨-, rfl⟩
      · refine run_of_eachBefore (I := fun m' => m'.streamer.live = m.streamer.live) ?_ rfl
          (hspares hactive) hbatch
        intro d m₁ m₂ hlive hd hdispatch
        exact (live_sparing hd hdispatch).trans hlive
      · rfl
  | mainQueue => exact (frames_runMainQueue hx).live_eq
  | metadataArrives h md =>
      simp only [step, modifies_eq_ok] at hx
      rw [hx]
      exact (frames_metadataArrives h md m.streamer).live_eq
  | start | startMulti | cancel | fastForward => exact he.elim

/-! ## Starts that do not fail -/

/-- The start comes to `add_torrent`, and finds room for the torrent of a file. -/
def Env.Opens (env : Env) (arg : Text) (m : Machine) : Prop :=
  ∃ tp ∈ env.addParams? arg none,
    isMagnet arg = false → ¬ env.LowSpace (m.streamer.session.handleFor tp)

instance (env : Env) (arg : Text) (m : Machine) : Decidable (env.Opens arg m) :=
  inferInstanceAs (Decidable (∃ tp ∈ env.addParams? arg none,
    isMagnet arg = false → ¬ env.LowSpace (m.streamer.session.handleFor tp)))

/-- A start that opens its torrent and returns leaves a live run. -/
theorem live_start {env : Env} {arg : Text} {progress readyToPlay failure : Option BlockId}
    (hopens : env.Opens arg m)
    (hx : startStreamingFromFile env arg progress readyToPlay failure m = .ok u m') :
    m'.streamer.live ≠ none := by
  obtain ⟨tp, htp, hroom⟩ := hopens
  rw [Option.mem_def] at htp
  -- a start that opens has its file and its folder, so it gets as far as add_torrent
  rcases startStreamingFromFileInDirectory_ok hx with ⟨hfile, hmissing, -⟩ |
    ⟨tp', md5, m₁, hloads, hclosed, -⟩ | ⟨tp', md5, m₁, hloads, path, m₂, hopened, -, hs₂, hadd⟩
  · rw [addParams?_eq_none (params?_missing hfile hmissing)] at htp
    cases htp
  · rw [hloads.addParams?, hclosed] at htp
    cases htp
  · rw [hloads.addParams?, hopened] at htp
    obtain rfl : finalParams env arg path tp' = tp := Option.some.inj htp
    obtain ⟨h, s₁, m₃, m₄, hadds, -, -, hs₃, hmeta, -, hs'⟩ := addAndResume_ok hadd
    obtain ⟨hh, hlive₁⟩ := hadds.handleFor
    obtain ⟨es, hs₁⟩ := hloads.frame
    have hsession : m₂.streamer.session = m.streamer.session := by
      rw [hs₂, hs₁]
      rfl
    have hlive₃ : m₃.streamer.live = some h := by
      rw [hs₃, (Streamer.Frames.sent env h addCommands s₁).live_eq, hlive₁]
    have hlive₄ : m₄.streamer.live = some h := by
      rcases hmeta with ⟨-, rfl⟩ | ⟨hfile, hmeta⟩
      · exact hlive₃
      · have hspace : ¬ env.LowSpace h := by
          rw [hh, hsession]
          exact hroom hfile
        rw [live_metadataReceivedAlert (fun hlow => absurd hlow hspace) hmeta, hlive₃]
    rw [hs', (frames_resumes m₄.streamer).live_eq, hlive₄]
    simp

/-! ## The runs of a list -/

/-- The list stays the same, and the condition of the event holds:

* a tap that starts a row opens its torrent;
* nothing that happens to a streamer by itself ends its live run;
* a block of the main queue updates the model of a row whose download is running;
* the table view shows the rows in different cells, and the closed rows in cells whose buttons
  are enabled. -/
def Honest (c : Controller) : ViewEvent → Prop
  | .tap env row => c.startButtonEnabled (c.cellForRow row) = true → ∀ im ∈ c.model? row,
      im.2.torrentstate = .closed → env.Opens im.2.filepath (c.machine (c.streamerFor row))
  | .load _ _ => False
  | .reuse cellForRow => Controller.Apart { c with cellForRow := cellForRow } ∧
      ∀ row < c.torrentmodels.length, ∀ im ∈ c.model? row, im.2.torrentstate = .closed →
        c.startButtonEnabled (cellForRow row) = true
  | .streamer row e => ∀ s ∈ c.torrentsessions row, AlertsMeet SparesRun (c.machine s) e.val
  | .mainQueue _ => ∀ block ∈ c.mainQueue.head?, ∀ row < c.torrentmodels.length,
      c.torrentmodels[row]? = some block.1.model → c.running row

instance (c : Controller) : (e : ViewEvent) → Decidable (Honest c e)
  | .tap env row => inferInstanceAs (Decidable (_ = true → ∀ im ∈ c.model? row,
      im.2.torrentstate = .closed → env.Opens im.2.filepath (c.machine (c.streamerFor row))))
  | .load _ _ => .isFalse id
  | .reuse cellForRow => inferInstanceAs (Decidable (_ ∧ ∀ row < c.torrentmodels.length,
      ∀ im ∈ c.model? row, im.2.torrentstate = .closed →
        c.startButtonEnabled (cellForRow row) = true))
  | .streamer row e => inferInstanceAs (Decidable (∀ s ∈ c.torrentsessions row,
      AlertsMeet SparesRun (c.machine s) e.val))
  | .mainQueue _ => inferInstanceAs (Decidable (∀ block ∈ c.mainQueue.head?,
      ∀ row < c.torrentmodels.length, c.torrentmodels[row]? = some block.1.model → c.running row))

/-- What the truth of a list needs: rows have different models and different cells. -/
structure Controller.Shown (c : Controller) : Prop where
  nodup : c.torrentmodels.Nodup
  apart : c.Apart
  truthful : c.Truthful

theorem row_lt {row i : Nat} {model : TorrentModel} (h : c.model? row = some (i, model)) :
    row < c.torrentmodels.length := by
  obtain ⟨hrow, -⟩ := model?_eq_some.mp h
  exact (List.getElem?_eq_some_iff.mp hrow).1

/-- A tap that starts a row leaves it running and the other rows alone. -/
theorem toggleOn_starts {env : Env} {row i : Nat} {model : TorrentModel}
    (hopens : env.Opens model.filepath (c.machine (c.streamerFor row)))
    (hx : toggleOn env row i model c = .ok u c') :
    c'.running row ∧ ∀ row', row' ≠ row → (c'.running row' ↔ c.running row') := by
  obtain ⟨block, m, -, hstart, rfl⟩ := toggleOn_ok hx
  constructor
  · rw [running_store, if_pos rfl]
    exact live_start hopens hstart
  · intro row' hrow
    rw [running_store, if_neg hrow]
    exact Iff.rfl

theorem shown_toggleOn {env : Env} {row i : Nat} {model : TorrentModel} (h : c.Shown)
    (hmodel : c.model? row = some (i, model))
    (hopens : env.Opens model.filepath (c.machine (c.streamerFor row)))
    (hx : toggleOn env row i model c = .ok u c') : c'.Shown := by
  obtain ⟨hrunning, hothers⟩ := toggleOn_starts hopens hx
  obtain ⟨block, m, -, -, rfl⟩ := toggleOn_ok hx
  -- the tapped row is searching, and the other rows are as before
  have hrows : ∀ row' j model', ((c.searching row i model).store row
      (c.machine (c.streamerFor row)) m).model? row' = some (j, model') →
      (row' = row ∧ model'.torrentstate = .searching) ∨
        (row' ≠ row ∧ c.model? row' = some (j, model')) := by
    intro row' j model' hmodel'
    have hset : ((c.enable (c.cellForRow row) false).setModel i
        { model with torrentstate := .searching }).model? row' = some (j, model') := hmodel'
    exact (model?_setModel_row h.nodup hmodel hset).imp_left fun ⟨hrow, hnew⟩ =>
      ⟨hrow, by rw [hnew]⟩
  refine ⟨h.nodup, h.apart, ⟨fun row' j model' hmodel' => ?_,
    fun row' j model' hmodel' hclosed => ?_⟩⟩
  · rcases hrows row' j model' hmodel' with ⟨rfl, hstate⟩ | ⟨hrow, hold⟩
    · rw [hstate]
      exact iff_of_false (by decide) (not_not.mpr hrunning)
    · rw [hothers row' hrow]
      exact h.truthful.closed_iff row' j model' hold
  · rcases hrows row' j model' hmodel' with ⟨-, hstate⟩ | ⟨hrow, hold⟩
    · rw [hstate] at hclosed
      cases hclosed
    · -- the button that was disabled is in another cell
      have hcell : c.cellForRow row' ≠ c.cellForRow row := fun heq =>
        hrow (h.apart row' (row_lt hold) row (row_lt hmodel) heq)
      show Function.update c.startButtonEnabled (c.cellForRow row) false (c.cellForRow row') = true
      rw [Function.update_of_ne hcell]
      exact h.truthful.enabled row' j model' hold hclosed

theorem shown_toggleOff {env : Env} {row i : Nat} {model : TorrentModel} (h : c.Shown)
    (henabled : c.startButtonEnabled (c.cellForRow row) = true)
    (hmodel : c.model? row = some (i, model)) (hx : toggleOff env row i model c = .ok u c') :
    c'.Shown := by
  obtain ⟨hstopped, hothers, -, hmodels, hlist, hcells, hbuttons⟩ := toggleOff_stops hx
  -- the tapped row is closed, and the other rows are as before
  have hrows : ∀ row' j model', c'.model? row' = some (j, model') →
      (row' = row ∧ model'.torrentstate = .closed) ∨
        (row' ≠ row ∧ c.model? row' = some (j, model')) := by
    intro row' j model' hmodel'
    rw [hmodels] at hmodel'
    exact (model?_setModel_row h.nodup hmodel hmodel').imp_left fun ⟨hrow, hnew⟩ =>
      ⟨hrow, by rw [hnew]⟩
  refine ⟨by rw [hlist]; exact h.nodup, ?_, ⟨fun row' j model' hmodel' => ?_,
    fun row' j model' hmodel' hclosed => ?_⟩⟩
  · unfold Controller.Apart
    rw [hlist, hcells]
    exact h.apart
  · rcases hrows row' j model' hmodel' with ⟨rfl, hstate⟩ | ⟨hrow, hold⟩
    · exact iff_of_true hstate hstopped
    · rw [hothers row' hrow]
      exact h.truthful.closed_iff row' j model' hold
  · rw [hbuttons, hcells]
    rcases hrows row' j model' hmodel' with ⟨rfl, -⟩ | ⟨-, hold⟩
    · exact henabled
    · exact h.truthful.enabled row' j model' hold hclosed

theorem shown_streamer {row : Nat} {e : Delivery} (h : c.Shown)
    (hhonest : Honest c (.streamer row e)) (hx : viewStep (.streamer row e) c = .ok u c') :
    c'.Shown := by
  rw [viewStep, view_get_bind] at hx
  cases hs : c.torrentsessions row with
  | none =>
      rw [hs] at hx
      cases hx
      exact h
  | some s =>
      rw [hs] at hx
      obtain ⟨m, hstep, rfl⟩ := send_ok hx
      have hlive : m.streamer.live = s.live := live_spared (hhonest s hs) hstep
      have hrunning : ∀ row', (c.store row (c.machine s) m).running row' ↔ c.running row' := by
        intro row'
        rw [running_store]
        split
        · rename_i hrow
          rw [hlive, hrow, Controller.running, hs]
          simp
        · exact Iff.rfl
      refine ⟨h.nodup, h.apart, ⟨fun row' j model hmodel => ?_, h.truthful.enabled⟩⟩
      rw [hrunning]
      exact h.truthful.closed_iff row' j model hmodel

theorem shown_mainQueue {visible : Bool} (h : c.Shown) (hhonest : Honest c (.mainQueue visible))
    (hx : runViewQueue visible c = .ok u c') : c'.Shown := by
  rcases runViewQueue_ok hx with ⟨-, rfl⟩ |
    ⟨b, status, rest, hqueue, ⟨-, rfl⟩ | ⟨model, hmodel, rfl⟩⟩
  · exact h
  · exact ⟨h.nodup, h.apart, h.truthful.closed_iff, h.truthful.enabled⟩
  · have hruns : ∀ row < c.torrentmodels.length, c.torrentmodels[row]? = some b.model →
        c.running row := hhonest (b, status) (by rw [hqueue]; rfl)
    refine ⟨h.nodup, h.apart, ⟨fun row j model' hmodel' => ?_,
      fun row j model' hmodel' hclosed => ?_⟩⟩
    all_goals
      have hset : (c.setModel b.model (model.shows visible status)).model? row =
        some (j, model') := hmodel'
      obtain ⟨old, hold, rfl⟩ := model?_setModel hset
    · by_cases hj : j = b.model
      · -- the model that the block has captured is the model of this row
        rw [if_pos hj]
        have hrow : c.torrentmodels[row]? = some b.model := hj ▸ (model?_eq_some.mp hold).1
        exact iff_of_false (model.shows_ne_closed visible status)
          (not_not.mpr (hruns row (row_lt hold) hrow))
      · rw [if_neg hj]
        exact h.truthful.closed_iff row j old hold
    · have hj : j ≠ b.model := by
        intro hj
        rw [if_pos hj] at hclosed
        exact model.shows_ne_closed visible status hclosed
      rw [if_neg hj] at hclosed
      show Function.update c.startButtonEnabled b.cell true (c.cellForRow row) = true
      by_cases hcell : c.cellForRow row = b.cell
      · rw [hcell, Function.update_self]
      · rw [Function.update_of_ne hcell]
        exact h.truthful.enabled row j old hold hclosed

/-- **The step lemma.** -/
theorem shown_step {e : ViewEvent} (h : c.Shown) (hhonest : Honest c e)
    (hx : viewStep e c = .ok u c') : c'.Shown := by
  cases e with
  | tap env row =>
      rcases tap_ok hx with ⟨-, rfl⟩ | ⟨henabled, i, model, hmodel, ⟨hclosed, hon⟩ | ⟨-, hoff⟩⟩
      · exact h
      · exact shown_toggleOn h hmodel (hhonest henabled (i, model) hmodel hclosed) hon
      · exact shown_toggleOff h henabled hmodel hoff
  | load contents cellForRow => exact hhonest.elim
  | reuse cellForRow =>
      cases hx
      obtain ⟨hapart, henabled⟩ := hhonest
      refine ⟨h.nodup, hapart, ⟨h.truthful.closed_iff, fun row j model hmodel hclosed => ?_⟩⟩
      exact henabled row (row_lt hmodel) (j, model) hmodel hclosed
  | streamer row e => exact shown_streamer h hhonest hx
  | mainQueue visible => exact shown_mainQueue h hhonest hx

/-- The list of a folder, before any tap. -/
def Controller.listed (sandboxdocpath : Text) (files : List (Text × Int)) (cellForRow : Nat → Nat) :
    Controller :=
  ({ sandboxdocpath := sandboxdocpath } : Controller).list files cellForRow

theorem shown_listed {sandboxdocpath : Text} {files : List (Text × Int)} {cellForRow : Nat → Nat}
    (hapart : (Controller.listed sandboxdocpath files cellForRow).Apart) :
    (Controller.listed sandboxdocpath files cellForRow).Shown := by
  refine ⟨List.nodup_range', hapart, ⟨fun row i model hmodel => ?_, fun _ _ _ _ _ => rfl⟩⟩
  obtain ⟨file, -, -, hclosed⟩ := model?_list hmodel
  refine iff_of_true hclosed ?_
  rintro ⟨s, hs, -⟩
  cases hs

/-- A tap on an enabled button does the opposite: it starts a row that is not running, and stops
one that is. -/
def Controller.TapTurns (c : Controller) : Prop :=
  ∀ env row c' im, c.model? row = some im → c.startButtonEnabled (c.cellForRow row) = true →
    Honest c (.tap env row) → viewStep (.tap env row) c = .ok () c' →
    (c'.running row ↔ ¬ c.running row)

theorem Controller.Truthful.tapTurns (h : c.Truthful) : c.TapTurns := by
  rintro env row c' ⟨i, model⟩ hmodel henabled hhonest hx
  rcases tap_ok hx with ⟨hdisabled, -⟩ | ⟨-, j, model', hmodel', hcases⟩
  · rw [hdisabled] at henabled
    cases henabled
  · obtain ⟨rfl, rfl⟩ : i = j ∧ model = model' := by
      simpa using Option.some.inj (hmodel.symm.trans hmodel')
    rcases hcases with ⟨hclosed, hon⟩ | ⟨hopen, hoff⟩
    · have hidle := (h.closed_iff row i model hmodel).mp hclosed
      exact iff_of_true (toggleOn_starts (hhonest henabled (i, model) hmodel hclosed) hon).1 hidle
    · have hrunning : c.running row := by
        by_contra hidle
        exact hopen ((h.closed_iff row i model hmodel).mpr hidle)
      exact iff_of_false (toggleOff_stops hoff).1 (not_not.mpr hrunning)

/-- **The list tells the truth** in every state of a run of a fixed list whose events all meet
the condition, and the next tap on a row does the opposite of what the row does. -/
theorem truthful_of_honest {sandboxdocpath : Text} {files : List (Text × Int)}
    {cellForRow : Nat → Nat} {es : List ViewEvent}
    (hapart : (Controller.listed sandboxdocpath files cellForRow).Apart)
    (hhonest : EachBefore viewStep Honest es (.listed sandboxdocpath files cellForRow))
    (hrun : each viewStep es (.listed sandboxdocpath files cellForRow) = .ok () c) :
    c.Truthful ∧ c.TapTurns := by
  have hshown : c.Shown :=
    run_of_eachBefore (fun _ _ _ h hk hx => shown_step h hk hx) (shown_listed hapart) hhonest hrun
  exact ⟨hshown.truthful, hshown.truthful.tapTurns⟩

/-! ## Fixed runs -/

/-- No block waits: neither on the main queue for the list, nor for the streamer of a row. -/
def Controller.Quiet (c : Controller) : Prop :=
  c.mainQueue = [] ∧
    ∀ row < c.torrentmodels.length, ∀ s ∈ c.torrentsessions row, s.mainQueue = []

instance (c : Controller) : Decidable c.Quiet :=
  inferInstanceAs (Decidable (c.mainQueue = [] ∧
    ∀ row < c.torrentmodels.length, ∀ s ∈ c.torrentsessions row, s.mainQueue = []))

theorem run_of_load {files : List (Text × Int)} {cellForRow : Nat → Nat} {es : List ViewEvent}
    (h : listAfter (.load (.ok files) cellForRow :: es) = some c) :
    each viewStep es (.listed [] files cellForRow) = .ok () c := by
  obtain ⟨c₁, hload, hrest⟩ := each_cons_ok.mp (run_of_listAfter h)
  have hload : loadTorrents (.ok files) cellForRow {} = .ok () c₁ := hload
  rcases loadTorrents_ok hload with ⟨error, hcontents, -⟩ | ⟨files', hcontents, rfl⟩
  · cases hcontents
  · cases hcontents
    exact hrest

/-- The file of a row is gone when the row is tapped: the start fails, and the row stays
searching. -/
theorem not_truthful_missingFile :
    ¬ ∀ (files : List (Text × Int)) (cellForRow : Nat → Nat) (es : List ViewEvent) (c : Controller),
      (Controller.listed [] files cellForRow).Apart →
      (∀ e ∈ es, ∀ contents cells, e ≠ .load contents cells) →
      each viewStep es (.listed [] files cellForRow) = .ok () c → c.Quiet → c.Truthful := by
  intro hall
  let files : List (Text × Int) := [("a.torrent".toList, 40)]
  let es : List ViewEvent := [.tap .missing 0, .streamer 0 ⟨.mainQueue, trivial⟩]
  have hfinal : (listAfter (.load (.ok files) id :: es)).map (fun c => (decide c.Quiet,
      decide (c.running 0), (c.model? 0).map fun im => im.2.torrentstate)) =
      some (true, false, some .searching) := by decide +kernel
  obtain ⟨c, hc, hmap⟩ := Option.map_eq_some_iff.mp hfinal
  simp only [Prod.mk.injEq, decide_eq_true_eq, decide_eq_false_iff_not] at hmap
  obtain ⟨hquiet, hidle, hmodel⟩ := hmap
  obtain ⟨⟨i, model⟩, hmodel, hstate⟩ := Option.map_eq_some_iff.mp hmodel
  have hstate : model.torrentstate = .searching := hstate
  have htruthful : c.Truthful := by
    refine hall files id es c (by decide) ?_ (run_of_load hc) hquiet
    intro e he contents cells
    rcases List.mem_cons.mp he with rfl | he
    · exact ViewEvent.noConfusion
    · rcases List.mem_singleton.mp he with rfl
      exact ViewEvent.noConfusion
  have hclosed := (htruthful.closed_iff 0 i model hmodel).mpr hidle
  rw [hstate] at hclosed
  cases hclosed

/-- A film is started, shows its progress, is cancelled, and is started again. -/
theorem truthful_startedTwice :
    let env := Env.calm (Metadata.films 1 40 []) fun _ => false
    let mainQueue : ViewEvent := .streamer 0 ⟨.mainQueue, trivial⟩
    let es : List ViewEvent := [.tap env 0,
      .streamer 0 ⟨.alertsLoop [(env, .pieceFinished 0 0)], trivial⟩, mainQueue, mainQueue,
      .mainQueue true, .tap env 0, mainQueue, .tap env 0]
    ∃ c, each viewStep es (.listed [] [("a.torrent".toList, 40)] id) = .ok () c ∧ c.running 0 ∧
      c.Truthful ∧ c.TapTurns := by
  intro env mainQueue es
  have hfinal : (listAfter (.load (.ok [("a.torrent".toList, 40)]) id :: es)).map
      (fun c => decide (c.running 0)) = some true := by decide +kernel
  obtain ⟨c, hc, hrunning⟩ := Option.map_eq_some_iff.mp hfinal
  have hrun := run_of_load hc
  exact ⟨c, hrun, of_decide_eq_true hrunning,
    truthful_of_honest (by decide) (by decide +kernel) hrun⟩

end BtDownloader
