import BtDownloader.Client.Moves

set_option autoImplicit false

/-! # The list of torrents

`TorrentsViewController`: a model for each row, a streamer for each row that has been started,
and the cells that show the rows. The streamers are kept under the number of the row; a list
that is loaded again has new models. A progress block of a streamer puts a second block on the
main queue, which updates the model and the cell that it has captured.

The table view keeps the number of rows that its data source last told it. A row that is inserted
has to change the number in the data source by one, or the table view raises
`NSInternalInconsistencyException`; `reloadData` asks for the number again.
-/

namespace BtDownloader

open Program

/-! ## The state of the list -/

/-- `TorrentState`. -/
inductive TorrentState
  | closed
  | checkingHash
  | starting
  | searching
  | connecting
  | downloading
  | endgame
  | seeding
deriving DecidableEq, Repr

/-- `TorrentModel`. -/
structure TorrentModel where
  torrentname : Text
  filepath : Text
  totalWanted : Int
  totalWantedDone : Int := 0
  downrate : Int := 0
  torrentstate : TorrentState := .closed
deriving DecidableEq

/-- `TorrentsViewController`. A model is known by its place in `models`, which keeps those of
earlier lists for the blocks that have captured them. `tableRows` is the number of rows the table
view knows, `cellForRow` the cell it shows a row in; `startButtonEnabled` is about the button of a
cell. `starts` records the rows that were started, with the path; no method looks at it. -/
structure Controller where
  sandboxdocpath : Text := []
  models : List TorrentModel := []
  torrentmodels : List Nat := []
  torrentsessions : Nat → Option Streamer := fun _ => none
  globals : Globals := {}
  tableRows : Nat := 0
  cellForRow : Nat → Nat := id
  startButtonEnabled : Nat → Bool := fun _ => true
  mainQueue : List (BlockId × PTTorrentStatus) := []
  starts : List (Nat × Text) := []

/-- How an action of the view controller can stop without returning. -/
inductive ViewFault
  | objectAtIndex
  | internalInconsistency (before inserted after : Nat)
  | streamer (fault : Fault)
deriving DecidableEq, Repr

/-- A method of the view controller. -/
abbrev ViewHandler := EStateM ViewFault Controller

namespace Controller

/-- The identity of the model of a row, and the model. -/
def model? (c : Controller) (row : Nat) : Option (Nat × TorrentModel) := do
  let i ← c.torrentmodels[row]?
  let model ← c.models[i]?
  some (i, model)

/-- Change a model. -/
def setModel (c : Controller) (i : Nat) (model : TorrentModel) : Controller :=
  { c with models := c.models.set i model }

/-- Enable or disable the button of a cell. -/
def enable (c : Controller) (cell : Nat) (enabled : Bool) : Controller :=
  { c with startButtonEnabled := Function.update c.startButtonEnabled cell enabled }

/-- A streamer and the variables that all streamers share. -/
def machine (c : Controller) (s : Streamer) : Machine := { globals := c.globals, streamer := s }

/-- The calls of progress blocks among the effects of a streamer. -/
def progressCalls (L : List Effect) : List (BlockId × PTTorrentStatus) :=
  L.filterMap fun
    | .calledProgress b status => some (b, status)
    | _ => none

/-- What is kept when the streamer of a row has gone from `m₀` to `m`. Each progress block that
it has called has put a block on the main queue. -/
def store (c : Controller) (row : Nat) (m₀ m : Machine) : Controller :=
  { c with
    globals := m.globals
    torrentsessions := Function.update c.torrentsessions row (some m.streamer)
    mainQueue := c.mainQueue ++ progressCalls (m₀.did m) }

/-- The streamer of a row, a new one where there is none. -/
def streamerFor (c : Controller) (row : Nat) : Streamer :=
  (c.torrentsessions row).getD (Streamer.init 0)

/-- The list once the model of a row is set to searching, before its streamer is started. -/
def searching (c : Controller) (row i : Nat) (model : TorrentModel) : Controller :=
  { (c.enable (c.cellForRow row) false).setModel i { model with torrentstate := .searching } with
    starts := c.starts ++ [(row, model.filepath)] }

/-- The list once a model is set to closed. -/
def closing (c : Controller) (i : Nat) (model : TorrentModel) : Controller :=
  c.setModel i { model with downrate := 0, torrentstate := .closed }

/-- Let the streamer `s` of a row run a method. -/
def send (row : Nat) (s : Streamer) (x : Handler Unit) : ViewHandler Unit := fun c =>
  match x (c.machine s) with
  | .ok () m => .ok () (c.store row (c.machine s) m)
  | .error fault _ => .error (.streamer fault) c

/-- The path of a file in the folder of the torrents. -/
def torrentPath (c : Controller) (filename : Text) : Text :=
  appendPathComponent (c.sandboxdocpath ++ "/torrents".toList) filename

/-- `tableView:numberOfRowsInSection:`. -/
def numberOfRows (c : Controller) : Nat := c.torrentmodels.length

/-- The list with one more model, for a file of the folder. -/
def addModel (c : Controller) (file : Text × Int) : Controller :=
  { c with
    models := c.models ++
      [{ torrentname := file.1, filepath := c.torrentPath file.1, totalWanted := file.2 }]
    torrentmodels := c.torrentmodels ++ [c.models.length] }

/-- The list with a new model for each file; the table view shows its rows in new cells. -/
def list (c : Controller) (files : List (Text × Int)) (cellForRow : Nat → Nat) : Controller :=
  { c with
    models := c.models ++ files.map fun file =>
      { torrentname := file.1
        filepath := c.torrentPath file.1
        totalWanted := file.2 }
    torrentmodels := List.range' c.models.length files.length
    tableRows := files.length
    cellForRow := cellForRow }

end Controller

/-! ## The methods -/

/-- The branch of `toggleRun` for a row that is not running. -/
def toggleOn (env : Env) (row i : Nat) (model : TorrentModel) : ViewHandler Unit := do
  let c ← get
  let block : BlockId := { model := i, cell := c.cellForRow row }
  set (c.searching row i model)
  Controller.send row (c.streamerFor row)
    (startStreamingFromFile env model.filepath (some block) (some block) (some block))

/-- The branch of `toggleRun` for a row that is running. -/
def toggleOff (env : Env) (row i : Nat) (model : TorrentModel) : ViewHandler Unit := do
  let c ← get
  set (c.closing i model)
  match c.torrentsessions row with
  | some s => Controller.send row s (cancelStreamingAndDeleteData env false)
  | none => pure ()

/-- `toggleRun`. -/
def toggleRun (env : Env) (row : Nat) : ViewHandler Unit := do
  match (← get).model? row with
  | some (i, model) =>
      if model.torrentstate = .closed then toggleOn env row i model
      else toggleOff env row i model
  | none => throw .objectAtIndex

/-- A tap on the start button of a row: a disabled button does nothing. -/
def tap (env : Env) (row : Nat) : ViewHandler Unit := do
  let c ← get
  if c.startButtonEnabled (c.cellForRow row) then toggleRun env row else pure ()

/-- `insertRowsAtIndexPaths:` for `inserted` rows. -/
def insertRows (inserted : Nat) : ViewHandler Unit := do
  let c ← get
  if c.numberOfRows = c.tableRows + inserted then
    set ({ c with tableRows := c.numberOfRows } : Controller)
  else throw (.internalInconsistency c.tableRows inserted c.numberOfRows)

/-- `reloadData`: the table view then shows the rows in the cells `cellForRow`. -/
def reloadData (cellForRow : Nat → Nat) : ViewHandler Unit :=
  modify fun c => { c with tableRows := c.numberOfRows, cellForRow := cellForRow }

/-- The body of the loop of `loadTorrents`. -/
def addRow (file : Text × Int) : ViewHandler Unit := do
  modify (·.addModel file)
  insertRows 1

/-- `loadTorrents`: `contents` are the names of the files in the folder and the sizes of their
torrents, or the error of the file manager. An unreadable folder leaves at once, with the list
empty and the table view as it was. -/
def loadTorrents (contents : Except Text (List (Text × Int))) (cellForRow : Nat → Nat) :
    ViewHandler Unit := do
  modify fun c => { c with torrentmodels := [] }
  match contents with
  | .error _ => pure ()
  | .ok files => do
      each addRow files
      reloadData cellForRow

/-- A model into which a status is written. Only the rate of the download depends on whether the
list is on the screen: the `if` has no braces. -/
def TorrentModel.shows (visible : Bool) (status : PTTorrentStatus) (model : TorrentModel) :
    TorrentModel :=
  let model := if visible then { model with downrate := status.downloadSpeed } else model
  { model with
    torrentstate := if model.downrate = 0 then .seeding else .downloading
    totalWanted := status.totalWanted
    totalWantedDone := status.totalWantedDone }

@[simp] theorem TorrentModel.shows_filepath (visible : Bool) (status : PTTorrentStatus)
    (model : TorrentModel) : (model.shows visible status).filepath = model.filepath := by
  cases visible <;> rfl

theorem TorrentModel.shows_ne_closed (visible : Bool) (status : PTTorrentStatus)
    (model : TorrentModel) : (model.shows visible status).torrentstate ≠ .closed := by
  have hrate : ∀ rate : Int,
      (if rate = 0 then TorrentState.seeding else .downloading) ≠ .closed := by
    intro rate
    split
    · simp
    · simp
  exact hrate _

/-- The block that a progress block puts on the main queue. -/
def updateFromStatus (visible : Bool) (b : BlockId) (status : PTTorrentStatus) :
    ViewHandler Unit := do
  let c ← get
  match c.models[b.model]? with
  | some model => set ((c.setModel b.model (model.shows visible status)).enable b.cell true)
  | none => pure ()

/-- Run the block at the head of the main queue. -/
def runViewQueue (visible : Bool) : ViewHandler Unit := do
  let c ← get
  match c.mainQueue with
  | [] => pure ()
  | (b, status) :: rest => do
      set { c with mainQueue := rest }
      updateFromStatus visible b status

/-! ## Events -/

/-- What happens to a streamer by itself. -/
abbrev Delivery := { e : Event // e.IsDelivery }

/-- What can happen to the list: a tap on the button of a row, a load of the list (when the view
appears, and after the import of a magnet link), a new assignment of the cells by the table view,
something that happens to the streamer of a row by itself, or a block of the main queue. -/
inductive ViewEvent
  | tap (env : Env) (row : Nat)
  | load (contents : Except Text (List (Text × Int))) (cellForRow : Nat → Nat)
  | reuse (cellForRow : Nat → Nat)
  | streamer (row : Nat) (e : Delivery)
  | mainQueue (visible : Bool)

/-- The step of the list. -/
def viewStep : ViewEvent → ViewHandler Unit
  | .tap env row => tap env row
  | .load contents cellForRow => loadTorrents contents cellForRow
  | .reuse cellForRow => modify fun c => { c with cellForRow := cellForRow }
  | .streamer row e => do
      match (← get).torrentsessions row with
      | some s => Controller.send row s (step e.val)
      | none => pure ()
  | .mainQueue visible => runViewQueue visible

/-! ## What each method can do -/

variable {c c' : Controller} {u : Unit}

theorem view_get_bind {α : Type} (f : Controller → ViewHandler α) (c : Controller) :
    (do let c ← get; f c : ViewHandler α) c = f c c := rfl

theorem view_set_bind {α : Type} (c₁ : Controller) (x : ViewHandler α) (c : Controller) :
    (do set c₁; x : ViewHandler α) c = x c₁ := rfl

theorem view_set_eq_ok {c₁ : Controller} :
    (set c₁ : ViewHandler Unit) c = .ok u c' ↔ c' = c₁ := by
  show EStateM.Result.ok () c₁ = .ok u c' ↔ _
  rw [EStateM.Result.ok.injEq]
  exact ⟨fun h => h.2.symm, fun h => ⟨rfl, h.symm⟩⟩

theorem send_ok {row : Nat} {s : Streamer} {x : Handler Unit}
    (hx : Controller.send row s x c = .ok u c') :
    ∃ m, x (c.machine s) = .ok () m ∧ c' = c.store row (c.machine s) m := by
  unfold Controller.send at hx
  split at hx
  · rename_i m hm
    cases hx
    exact ⟨m, hm, rfl⟩
  · cases hx

theorem toggleOn_ok {env : Env} {row i : Nat} {model : TorrentModel}
    (hx : toggleOn env row i model c = .ok u c') :
    ∃ block m, block = some ⟨i, c.cellForRow row⟩ ∧
      startStreamingFromFile env model.filepath block block block
        (c.machine (c.streamerFor row)) = .ok () m ∧
      c' = (c.searching row i model).store row (c.machine (c.streamerFor row)) m := by
  rw [toggleOn, view_get_bind, view_set_bind] at hx
  obtain ⟨m, hm, hc'⟩ := send_ok hx
  exact ⟨_, m, rfl, hm, hc'⟩

theorem toggleOff_ok {env : Env} {row i : Nat} {model : TorrentModel}
    (hx : toggleOff env row i model c = .ok u c') :
    (c.torrentsessions row = none ∧ c' = c.closing i model) ∨
    ∃ s m, c.torrentsessions row = some s ∧
      cancelStreamingAndDeleteData env false (c.machine s) = .ok () m ∧
      c' = (c.closing i model).store row (c.machine s) m := by
  rw [toggleOff, view_get_bind, view_set_bind] at hx
  cases hs : c.torrentsessions row with
  | none =>
      rw [hs] at hx
      cases hx
      exact Or.inl ⟨rfl, rfl⟩
  | some s =>
      rw [hs] at hx
      obtain ⟨m, hm, hc'⟩ := send_ok hx
      exact Or.inr ⟨s, m, rfl, hm, hc'⟩

/-- **What a tap does.** -/
theorem tap_ok {env : Env} {row : Nat} (hx : tap env row c = .ok u c') :
    (c.startButtonEnabled (c.cellForRow row) = false ∧ c' = c) ∨
    (c.startButtonEnabled (c.cellForRow row) = true ∧ ∃ i model, c.model? row = some (i, model) ∧
      ((model.torrentstate = .closed ∧ toggleOn env row i model c = .ok () c') ∨
        (model.torrentstate ≠ .closed ∧ toggleOff env row i model c = .ok () c'))) := by
  rw [tap, view_get_bind] at hx
  cases henabled : c.startButtonEnabled (c.cellForRow row) with
  | false =>
      rw [henabled, if_neg (by decide)] at hx
      cases hx
      exact Or.inl ⟨rfl, rfl⟩
  | true =>
      rw [henabled, if_pos rfl, toggleRun, view_get_bind] at hx
      cases hmodel : c.model? row with
      | none =>
          rw [hmodel] at hx
          cases hx
      | some im =>
          obtain ⟨i, model⟩ := im
          rw [hmodel] at hx
          dsimp only at hx
          refine Or.inr ⟨rfl, i, model, rfl, ?_⟩
          split at hx
          · rename_i hclosed
            exact Or.inl ⟨hclosed, hx⟩
          · rename_i hclosed
            exact Or.inr ⟨hclosed, hx⟩

/-- **What a block of the main queue does.** -/
theorem runViewQueue_ok {visible : Bool} (hx : runViewQueue visible c = .ok u c') :
    (c.mainQueue = [] ∧ c' = c) ∨
    ∃ b status rest, c.mainQueue = (b, status) :: rest ∧
      ((c.models[b.model]? = none ∧ c' = { c with mainQueue := rest }) ∨
        ∃ model, c.models[b.model]? = some model ∧ c' =
          (({ c with mainQueue := rest }.setModel b.model (model.shows visible status)).enable
            b.cell true)) := by
  rw [runViewQueue, view_get_bind] at hx
  cases hqueue : c.mainQueue with
  | nil =>
      rw [hqueue] at hx
      cases hx
      exact Or.inl ⟨rfl, rfl⟩
  | cons block rest =>
      obtain ⟨b, status⟩ := block
      rw [hqueue] at hx
      dsimp only at hx
      rw [view_set_bind, updateFromStatus, view_get_bind] at hx
      refine Or.inr ⟨b, status, rest, rfl, ?_⟩
      cases hmodel : c.models[b.model]? with
      | none =>
          rw [hmodel] at hx
          cases hx
          exact Or.inl ⟨rfl, rfl⟩
      | some model =>
          rw [hmodel] at hx
          exact Or.inr ⟨model, rfl, view_set_eq_ok.mp hx⟩

/-! ## Loads -/

/-- The table view and the list of models are in step. -/
def Controller.InStep (c : Controller) : Prop := c.tableRows = c.numberOfRows

/-- The list and the table view after a row was added to both. -/
def Controller.addShown (c : Controller) (file : Text × Int) : Controller :=
  { c.addModel file with tableRows := c.tableRows + 1 }

theorem numberOfRows_addModel (c : Controller) (file : Text × Int) :
    (c.addModel file).numberOfRows = c.numberOfRows + 1 := by
  unfold Controller.numberOfRows Controller.addModel
  simp

/-- **A row can be added exactly where the two are in step**, and they are in step afterwards. -/
theorem addRow_eq_ok {file : Text × Int} :
    addRow file c = .ok u c' ↔ c.InStep ∧ c' = c.addShown file := by
  have hadd : addRow file c = insertRows 1 (c.addModel file) := rfl
  have hrows : (c.addModel file).tableRows = c.tableRows := rfl
  rw [hadd, insertRows, view_get_bind, numberOfRows_addModel, hrows]
  unfold Controller.InStep
  by_cases hstep : c.tableRows = c.numberOfRows
  · rw [if_pos (by omega), view_set_eq_ok, Controller.addShown, hstep]
    exact (and_iff_right rfl).symm
  · rw [if_neg (by omega)]
    constructor
    · intro h
      cases h
    · intro h
      exact absurd h.1 hstep

theorem inStep_addShown {file : Text × Int} (hc : c.InStep) : (c.addShown file).InStep := by
  have hrows : (c.addShown file).numberOfRows = c.numberOfRows + 1 := numberOfRows_addModel c file
  rw [Controller.InStep, hrows, ← hc]
  rfl

/-- The rows of several files are added one after the other. -/
theorem each_addRow (files : List (Text × Int)) (hc : c.InStep) :
    each addRow files c = .ok () (files.foldl Controller.addShown c) ∧
      (files.foldl Controller.addShown c).InStep := by
  induction files generalizing c with
  | nil => exact ⟨rfl, hc⟩
  | cons file files ih =>
      obtain ⟨hrun, hstep⟩ := ih (inStep_addShown hc)
      exact ⟨each_cons_ok.mpr ⟨_, addRow_eq_ok.mpr ⟨hc, rfl⟩, hrun⟩, hstep⟩

theorem foldl_addShown (files : List (Text × Int)) (c : Controller) :
    files.foldl Controller.addShown c = { c with
      models := c.models ++ files.map fun file =>
        { torrentname := file.1
          filepath := c.torrentPath file.1
          totalWanted := file.2 }
      torrentmodels := c.torrentmodels ++ List.range' c.models.length files.length
      tableRows := c.tableRows + files.length } := by
  induction files generalizing c with
  | nil => simp
  | cons file files ih =>
      have hpath : ∀ name, (c.addShown file).torrentPath name = c.torrentPath name := fun _ => rfl
      have hlength : (c.addShown file).models.length = c.models.length + 1 := by
        unfold Controller.addShown Controller.addModel
        simp
      rw [List.foldl_cons, ih, hlength]
      simp only [hpath]
      unfold Controller.addShown Controller.addModel
      simp only [List.map_cons, List.append_assoc, List.singleton_append, List.length_cons,
        List.range'_succ, Controller.mk.injEq, true_and, and_true]
      omega

/-- The list before any row is added: it is a new one, the table view is not told. -/
def Controller.emptied (c : Controller) : Controller := { c with torrentmodels := [] }

theorem loadTorrents_error (error : Text) (cellForRow : Nat → Nat) (c : Controller) :
    loadTorrents (.error error) cellForRow c = .ok () c.emptied := rfl

theorem loadTorrents_files (files : List (Text × Int)) (cellForRow : Nat → Nat) (c : Controller) :
    loadTorrents (.ok files) cellForRow c =
      (do each addRow files; reloadData cellForRow : ViewHandler Unit) c.emptied := rfl

theorem reloadData_foldl (files : List (Text × Int)) (cellForRow : Nat → Nat) (c : Controller) :
    reloadData cellForRow (files.foldl Controller.addShown c.emptied) =
      .ok () (c.list files cellForRow) := by
  rw [foldl_addShown]
  show EStateM.Result.ok () _ = _
  simp [Controller.list, Controller.numberOfRows, Controller.emptied, Controller.torrentPath]

/-- **A folder with files is loaded exactly where the table view knows of no rows**, and no
exception is raised for an empty folder. -/
theorem loadTorrents_files_ok {files : List (Text × Int)} {cellForRow : Nat → Nat} :
    loadTorrents (.ok files) cellForRow c = .ok u c' ↔
      (c.tableRows = 0 ∨ files = []) ∧ c' = c.list files cellForRow := by
  rw [loadTorrents_files]
  constructor
  · intro hx
    obtain ⟨⟨⟩, c₁, hrun, hreload⟩ := bind_eq_ok.mp hx
    cases files with
    | nil =>
        cases hrun
        have hlist := reloadData_foldl [] cellForRow c
        exact ⟨Or.inr rfl, (EStateM.Result.ok.inj (hreload.symm.trans hlist)).2⟩
    | cons file files =>
        -- the first insertion finds an empty list
        obtain ⟨c₂, hfirst, -⟩ := each_cons_ok.mp hrun
        obtain ⟨hempty, -⟩ := addRow_eq_ok.mp hfirst
        obtain ⟨hall, -⟩ := each_addRow (file :: files) hempty
        obtain ⟨-, rfl⟩ := EStateM.Result.ok.inj (hall.symm.trans hrun)
        have hlist := reloadData_foldl (file :: files) cellForRow c
        exact ⟨Or.inl hempty, (EStateM.Result.ok.inj (hreload.symm.trans hlist)).2⟩
  · rintro ⟨hcan, rfl⟩
    have hrun : each addRow files c.emptied =
        .ok () (files.foldl Controller.addShown c.emptied) := by
      rcases hcan with hnone | rfl
      · exact (each_addRow (c := c.emptied) files hnone).1
      · rfl
    rw [bind_of_ok hrun]
    exact reloadData_foldl files cellForRow c

theorem loadTorrents_ok {contents : Except Text (List (Text × Int))} {cellForRow : Nat → Nat}
    (hx : loadTorrents contents cellForRow c = .ok u c') :
    (∃ error, contents = .error error ∧ c' = c.emptied) ∨
      ∃ files, contents = .ok files ∧ c' = c.list files cellForRow := by
  cases contents with
  | error error =>
      rw [loadTorrents_error] at hx
      cases hx
      exact Or.inl ⟨error, rfl, rfl⟩
  | ok files => exact Or.inr ⟨files, rfl, (loadTorrents_files_ok.mp hx).2⟩

end BtDownloader
