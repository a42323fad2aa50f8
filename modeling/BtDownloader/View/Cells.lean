import BtDownloader.View.Agreement

set_option autoImplicit false

/-! # The cells of the list

A `TorrentCell` shows what it was last told: by `cellForRowAtIndexPath:` when the table view puts
it in a row, and by `updateFromModel:` when the row is tapped or a progress block arrives. The
cell remembers a state, and `updateFromModel:` leaves the text and the icon alone while the state
of the model is the remembered one.

* `showsOwn_of_suits`: in which runs every cell on the screen shows its own row.
-/

namespace BtDownloader

open Program

/-! ## The state of the screen -/

/-- The images of the start button. -/
inductive Icon
  | resume
  | pause
deriving DecidableEq, Repr

/-- `TorrentCell`: the remembered state and what the cell shows. A new cell has the image of the
storyboard. -/
structure TorrentCell where
  state : TorrentState := .closed
  image : Icon := .resume
  stateHighlighted : Bool := false
  nameLabel : Text := []
  stateLabel : Text := []
  progressLabel : Text := []
  infoLabel : Text := []
deriving DecidableEq

/-- The controller, its cells, and the row in which a cell was put last. -/
structure Screen where
  controller : Controller := {}
  cells : Nat → TorrentCell := fun _ => {}
  rowOf : Nat → Option Nat := fun _ => none

/-- A method that works on the screen. -/
abbrev ScreenHandler := EStateM ViewFault Screen

/-- `indexPathForCell:`. A cell is on the screen as long as the row it was put in last has it. -/
def Screen.rowAt (s : Screen) (cell : Nat) : Option Nat :=
  (s.rowOf cell).filter fun row => s.controller.cellForRow row = cell

/-! ## The methods of the cell -/

/-- The text of a state. -/
def TorrentState.text : TorrentState → Text
  | .closed => "未开始".toList
  | .checkingHash => "验证资源".toList
  | .starting => "开始中".toList
  | .searching => "搜索资源中".toList
  | .connecting => "连接中".toList
  | .downloading => "下载中".toList
  | .endgame => "下载完成".toList
  | .seeding => "寻找种子中".toList

/-- `%ldMB of %ldMB`. -/
def progressText (done total : Int) : Text :=
  (toString ((done.tdiv 1024).tdiv 1024) ++ "MB of " ++
    toString ((total.tdiv 1024).tdiv 1024) ++ "MB").toList

/-- `%ldKB/s`. -/
def rateText (rate : Int) : Text := (toString (rate.tdiv 1024) ++ "KB/s").toList

def TorrentModel.icon (model : TorrentModel) : Icon :=
  if model.torrentstate = .closed then .resume else .pause

namespace TorrentCell

/-- `prepareForReuse`. -/
def prepareForReuse (cell : TorrentCell) : TorrentCell := { cell with state := .closed }

/-- The text and the icon of a state that is not the remembered one. -/
def remember (model : TorrentModel) (cell : TorrentCell) : TorrentCell :=
  { cell with
    state := model.torrentstate
    image := model.icon
    stateHighlighted := model.torrentstate = .seeding
    stateLabel := model.torrentstate.text }

/-- `updateFromModel:`. -/
def updateFromModel (model : TorrentModel) (cell : TorrentCell) : TorrentCell :=
  let cell := if cell.state ≠ model.torrentstate then cell.remember model else cell
  { cell with
    progressLabel := progressText model.totalWantedDone model.totalWanted
    infoLabel := if model.torrentstate = .closed then "--".toList else rateText model.downrate }

/-- What `tableView:cellForRowAtIndexPath:` writes into the cell; the progress is `0MB`. -/
def cellForRow (model : TorrentModel) (cell : TorrentCell) : TorrentCell :=
  { cell with
    nameLabel := model.torrentname
    stateLabel := model.torrentstate.text
    progressLabel := progressText 0 model.totalWanted
    infoLabel := "--".toList }

end TorrentCell

/-! ## Events -/

/-- Let the controller take a step. -/
def viewed (e : ViewEvent) : ScreenHandler Unit := fun s =>
  match viewStep e s.controller with
  | .ok () c => .ok () { s with controller := c }
  | .error fault _ => .error fault s

/-- Change a cell. -/
def Screen.setCell (s : Screen) (cell : Nat) (new : TorrentCell) : Screen :=
  { s with cells := Function.update s.cells cell new }

/-- Update a cell from a model, if there is one. -/
def Screen.refresh (s : Screen) (cell : Nat) : Option TorrentModel → Screen
  | some model => s.setCell cell ((s.cells cell).updateFromModel model)
  | none => s

/-- The table view puts a cell of the pool in a row: `prepareForReuse`, then
`tableView:cellForRowAtIndexPath:`. -/
def display (row cell : Nat) : ScreenHandler Unit := do
  let s ← get
  match s.controller.model? row with
  | some (_, model) => do
      viewed (.reuse (Function.update s.controller.cellForRow row cell))
      modify fun s => { s.setCell cell ((s.cells cell).prepareForReuse.cellForRow model) with
        rowOf := Function.update s.rowOf cell (some row) }
  | none => throw .objectAtIndex

/-- A tap on the button of a cell. `toggleRun:` sets the model and then updates the cell from it;
what it does to the streamer touches neither. -/
def tapCell (env : Env) (cell : Nat) : ScreenHandler Unit := do
  let s ← get
  match s.rowAt cell with
  | some row => do
      viewed (.tap env row)
      if s.controller.startButtonEnabled cell then
        modify fun s => s.refresh cell ((s.controller.model? row).map (·.2))
      else pure ()
  | none => pure ()

/-- A block of the main queue, which updates the model and the cell that it has captured. -/
def runCellBlock (visible : Bool) : ScreenHandler Unit := do
  let s ← get
  viewed (.mainQueue visible)
  match s.controller.mainQueue with
  | (b, _) :: _ => modify fun s => s.refresh b.cell s.controller.models[b.model]?
  | [] => pure ()

/-- What can happen to the screen. -/
inductive ScreenEvent
  | display (row cell : Nat)
  | tap (env : Env) (cell : Nat)
  | streamer (row : Nat) (e : Delivery)
  | mainQueue (visible : Bool)

def screenStep : ScreenEvent → ScreenHandler Unit
  | .display row cell => display row cell
  | .tap env cell => tapCell env cell
  | .streamer row e => viewed (.streamer row e)
  | .mainQueue visible => runCellBlock visible

variable {s s' : Screen} {c c' : Controller} {u : Unit}

/-! ## What is claimed -/

/-- What a cell shows of a state and a progress. -/
def TorrentCell.look (cell : TorrentCell) : Text × Icon × Text :=
  (cell.stateLabel, cell.image, cell.progressLabel)

/-- What a cell should show of a model. -/
def TorrentModel.look (model : TorrentModel) : Text × Icon × Text :=
  (model.torrentstate.text, model.icon, progressText model.totalWantedDone model.totalWanted)

/-- Every cell on the screen shows its own row. -/
def Screen.ShowsOwn (s : Screen) : Prop :=
  ∀ cell row i model, s.rowAt cell = some row → s.controller.model? row = some (i, model) →
    (s.cells cell).look = model.look

/-- The event is about the row: a tap on its cell, a block for its model, or its recycling. -/
def ScreenEvent.Concerns (s : Screen) (row : Nat) : ScreenEvent → Prop
  | .display _ _ => True
  | .tap _ cell => s.rowAt cell = some row
  | .streamer _ _ => False
  | .mainQueue _ => ∃ block ∈ s.controller.mainQueue.head?,
      s.controller.torrentmodels[row]? = some block.1.model

/-- The event changes neither the texts nor the icon nor the button of the cell of another row. -/
def ScreenEvent.Spares (e : ScreenEvent) (s s' : Screen) : Prop :=
  ∀ cell row, s.rowAt cell = some row → ¬ e.Concerns s row →
    s'.cells cell = s.cells cell ∧
      s'.controller.startButtonEnabled cell = s.controller.startButtonEnabled cell

/-! ## What the methods do -/

theorem viewed_ok {e : ViewEvent} (hx : viewed e s = .ok u s') :
    ∃ c, viewStep e s.controller = .ok () c ∧ s' = { s with controller := c } := by
  unfold viewed at hx
  split at hx
  · rename_i c hc
    cases hx
    exact ⟨c, hc, rfl⟩
  · cases hx

theorem rowAt_eq_some {cell row : Nat} :
    s.rowAt cell = some row ↔ s.rowOf cell = some row ∧ s.controller.cellForRow row = cell := by
  unfold Screen.rowAt
  rw [Option.filter_eq_some_iff, decide_eq_true_eq]

theorem screen_get_bind {α : Type} (f : Screen → ScreenHandler α) (s : Screen) :
    (do let s ← get; f s : ScreenHandler α) s = f s s := rfl

theorem screen_modify_ok {f : Screen → Screen} (hx : (modify f : ScreenHandler Unit) s = .ok u s') :
    s' = f s := by
  cases hx
  rfl

/-- **What a recycling does.** -/
theorem display_ok {row cell : Nat} (hx : display row cell s = .ok u s') :
    ∃ i model, s.controller.model? row = some (i, model) ∧
      s'.controller = { s.controller with
        cellForRow := Function.update s.controller.cellForRow row cell } ∧
      s'.cells =
        Function.update s.cells cell ((s.cells cell).prepareForReuse.cellForRow model) ∧
      s'.rowOf = Function.update s.rowOf cell (some row) := by
  rw [display, screen_get_bind] at hx
  cases hmodel : s.controller.model? row with
  | none =>
      rw [hmodel] at hx
      cases hx
  | some im =>
      obtain ⟨i, model⟩ := im
      rw [hmodel] at hx
      dsimp only at hx
      obtain ⟨_, s₁, hviewed, hrest⟩ := bind_eq_ok.mp hx
      obtain ⟨c, hc, rfl⟩ := viewed_ok hviewed
      cases hc
      cases hrest
      exact ⟨i, model, rfl, rfl, rfl, rfl⟩

/-- The model of a row after a tap on its button. -/
def TorrentModel.toggled (model : TorrentModel) : TorrentModel :=
  if model.torrentstate = .closed then { model with torrentstate := .searching }
  else { model with downrate := 0, torrentstate := .closed }

/-- **What a tap does to the list**, apart from the streamers. -/
theorem toggles_of_tap {env : Env} {row : Nat} (hx : tap env row c = .ok u c') :
    (c.startButtonEnabled (c.cellForRow row) = false ∧ c' = c) ∨
    (c.startButtonEnabled (c.cellForRow row) = true ∧ ∃ i model, c.model? row = some (i, model) ∧
      c'.models = (c.setModel i model.toggled).models ∧ c'.torrentmodels = c.torrentmodels ∧
      c'.cellForRow = c.cellForRow ∧ ∀ cell, cell ≠ c.cellForRow row →
        c'.startButtonEnabled cell = c.startButtonEnabled cell) := by
  rcases tap_ok hx with hdisabled | ⟨henabled, i, model, hmodel, ⟨hclosed, hon⟩ | ⟨hopen, hoff⟩⟩
  · exact Or.inl hdisabled
  · obtain ⟨block, m, -, -, rfl⟩ := toggleOn_ok hon
    refine Or.inr ⟨henabled, i, model, hmodel, ?_, rfl, rfl, fun cell hcell => ?_⟩
    · rw [TorrentModel.toggled, if_pos hclosed]
      rfl
    · exact Function.update_of_ne hcell false c.startButtonEnabled
  · refine Or.inr ⟨henabled, i, model, hmodel, ?_⟩
    rw [TorrentModel.toggled, if_neg hopen]
    rcases toggleOff_ok hoff with ⟨-, rfl⟩ | ⟨s, m, -, -, rfl⟩
    · exact ⟨rfl, rfl, rfl, fun _ _ => rfl⟩
    · exact ⟨rfl, rfl, rfl, fun _ _ => rfl⟩

/-- **What a tap does to the screen.** -/
theorem tapCell_ok {env : Env} {cell : Nat} (hx : tapCell env cell s = .ok u s') :
    s' = s ∨ ∃ row i model, s.rowAt cell = some row ∧
      s.controller.startButtonEnabled cell = true ∧
      s.controller.model? row = some (i, model) ∧
      s'.controller.models = (s.controller.setModel i model.toggled).models ∧
      s'.controller.torrentmodels = s.controller.torrentmodels ∧
      s'.controller.cellForRow = s.controller.cellForRow ∧
      (∀ cell', cell' ≠ cell →
        s'.controller.startButtonEnabled cell' = s.controller.startButtonEnabled cell') ∧
      s'.cells = Function.update s.cells cell ((s.cells cell).updateFromModel model.toggled) ∧
      s'.rowOf = s.rowOf := by
  rw [tapCell, screen_get_bind] at hx
  cases hrow : s.rowAt cell with
  | none =>
      rw [hrow] at hx
      cases hx
      exact Or.inl rfl
  | some row =>
      rw [hrow] at hx
      dsimp only at hx
      obtain ⟨_, s₁, hviewed, hrest⟩ := bind_eq_ok.mp hx
      obtain ⟨c, hc, rfl⟩ := viewed_ok hviewed
      have hcell := (rowAt_eq_some.mp hrow).2
      rcases toggles_of_tap hc with ⟨hdisabled, rfl⟩ |
        ⟨henabled, i, model, hmodel, hmodels, htorrents, hcells, hothers⟩
      · rw [hcell] at hdisabled
        rw [hdisabled, if_neg (by decide)] at hrest
        cases hrest
        exact Or.inl rfl
      · rw [hcell] at henabled hothers
        rw [henabled, if_pos rfl] at hrest
        have hs' : s' = Screen.refresh { s with controller := c } cell
            ((c.model? row).map (·.2)) := screen_modify_ok hrest
        -- the tap has written the model that the cell is refreshed from
        have htoggled : c.model? row = some (i, model.toggled) := by
          obtain ⟨hi, hold⟩ := model?_eq_some.mp hmodel
          refine model?_eq_some.mpr ⟨by rw [htorrents, hi], ?_⟩
          rw [hmodels]
          exact List.getElem?_set_self (List.getElem?_eq_some_iff.mp hold).1
        refine Or.inr ⟨row, i, model, rfl, henabled, hmodel, ?_⟩
        rw [htoggled] at hs'
        rw [hs']
        exact ⟨hmodels, htorrents, hcells, hothers, rfl, rfl⟩

/-- **What a block of the main queue does to the screen.** -/
theorem runCellBlock_ok {visible : Bool} (hx : runCellBlock visible s = .ok u s') :
    (s'.rowOf = s.rowOf ∧ s'.cells = s.cells ∧
      s'.controller = { s.controller with mainQueue := s'.controller.mainQueue }) ∨
    ∃ b status rest model, s.controller.mainQueue = (b, status) :: rest ∧
      s.controller.models[b.model]? = some model ∧
      s'.controller = (({ s.controller with mainQueue := rest }.setModel b.model
        (model.shows visible status)).enable b.cell true) ∧
      s'.cells =
        Function.update s.cells b.cell
          ((s.cells b.cell).updateFromModel (model.shows visible status)) ∧
      s'.rowOf = s.rowOf := by
  rw [runCellBlock, screen_get_bind] at hx
  obtain ⟨_, s₁, hviewed, hrest⟩ := bind_eq_ok.mp hx
  obtain ⟨c, hc, rfl⟩ := viewed_ok hviewed
  rcases runViewQueue_ok hc with ⟨hnil, rfl⟩ | ⟨b, status, rest, hqueue, hcases⟩
  · rw [hnil] at hrest
    cases hrest
    exact Or.inl ⟨rfl, rfl, rfl⟩
  rw [hqueue] at hrest
  have hs' : s' = Screen.refresh { s with controller := c } b.cell c.models[b.model]? :=
    screen_modify_ok hrest
  -- the model that the block was made for may be gone, and then it does nothing
  rcases hcases with ⟨hnone, rfl⟩ | ⟨model, hmodel, rfl⟩
  · have hnone' : ({ s.controller with mainQueue := rest } : Controller).models[b.model]? =
      none := hnone
    rw [hnone'] at hs'
    rw [hs']
    exact Or.inl ⟨rfl, rfl, rfl⟩
  · have hnew : ((({ s.controller with mainQueue := rest }.setModel b.model
        (model.shows visible status)).enable b.cell true)).models[b.model]? =
        some (model.shows visible status) :=
      List.getElem?_set_self (List.getElem?_eq_some_iff.mp hmodel).1
    rw [hnew] at hs'
    rw [hs']
    exact Or.inr ⟨b, status, rest, model, hqueue, hmodel, rfl, rfl, rfl⟩

/-! ## Cells that show their row -/

/-- The cell shows the model, and remembers its state unless it was recycled since. -/
structure TorrentCell.Shows (cell : TorrentCell) (model : TorrentModel) : Prop where
  look : cell.look = model.look
  state : cell.state = model.torrentstate ∨ cell.state = .closed

/-- A cell that is updated shows the model, unless it wrongly remembers the state. -/
theorem shows_updateFromModel {cell : TorrentCell} {model : TorrentModel}
    (hremembered : cell.state = model.torrentstate →
      cell.stateLabel = model.torrentstate.text ∧ cell.image = model.icon) :
    (cell.updateFromModel model).Shows model := by
  unfold TorrentCell.updateFromModel
  by_cases hstate : cell.state = model.torrentstate
  · obtain ⟨htext, hicon⟩ := hremembered hstate
    rw [if_neg (by simpa using hstate)]
    exact ⟨by simp only [TorrentCell.look, TorrentModel.look, htext, hicon], Or.inl hstate⟩
  · rw [if_pos hstate]
    exact ⟨rfl, Or.inl rfl⟩

/-- A cell that is put in a row shows it where the icon fits and nothing is downloaded. -/
theorem shows_cellForRow {cell : TorrentCell} {model : TorrentModel}
    (hicon : cell.image = model.icon) (hprogress :
      progressText model.totalWantedDone model.totalWanted = progressText 0 model.totalWanted) :
    (cell.prepareForReuse.cellForRow model).Shows model := by
  refine ⟨?_, Or.inr rfl⟩
  show (model.torrentstate.text, cell.image, progressText 0 model.totalWanted) = model.look
  rw [hicon, ← hprogress]
  rfl

/-- A tap changes the state, so the cell is updated unless it has forgotten that it was open. -/
theorem shows_toggled {cell : TorrentCell} {model : TorrentModel} (hshows : cell.Shows model)
    (hsuits : model.torrentstate ≠ .closed → cell.state ≠ .closed) :
    (cell.updateFromModel model.toggled).Shows model.toggled := by
  refine shows_updateFromModel fun hstate => ?_
  unfold TorrentModel.toggled at hstate
  split at hstate
  · rename_i hclosed
    rcases hshows.state with hsame | hforgot
    · rw [hsame, hclosed] at hstate
      cases hstate
    · rw [hforgot] at hstate
      cases hstate
  · rename_i hopen
    exact absurd hstate (hsuits hopen)

/-- So does a progress block: it closes no row. -/
theorem shows_status {visible : Bool} {status : PTTorrentStatus} {cell : TorrentCell}
    {model : TorrentModel} (hshows : cell.Shows model) :
    (cell.updateFromModel (model.shows visible status)).Shows (model.shows visible status) := by
  refine shows_updateFromModel fun hstate => ?_
  have hopen := model.shows_ne_closed visible status
  have hsame : model.torrentstate = (model.shows visible status).torrentstate := by
    rcases hshows.state with hsame | hforgot
    · rw [← hsame, hstate]
    · exact absurd (hstate.symm.trans hforgot) hopen
  have hlook := hshows.look
  simp only [TorrentCell.look, TorrentModel.look, Prod.mk.injEq] at hlook
  obtain ⟨htext, hicon, -⟩ := hlook
  refine ⟨by rw [htext, hsame], ?_⟩
  rw [hicon, TorrentModel.icon, TorrentModel.icon, hsame]

/-! ## The condition -/

/-- The condition of an event:

* a cell that is put in a row has the icon of its state already, and less than a megabyte of the
  row is downloaded;
* a tap that stops a row finds that its cell was updated since it was recycled;
* the cell that a block of the main queue has captured is the one that shows the captured model
  now, if one of the two is on the screen. -/
def Screen.Suits (s : Screen) : ScreenEvent → Prop
  | .display row cell => ∀ im ∈ s.controller.model? row, (s.cells cell).image = im.2.icon ∧
      progressText im.2.totalWantedDone im.2.totalWanted = progressText 0 im.2.totalWanted
  | .tap _ cell => s.controller.startButtonEnabled cell = true → ∀ row ∈ s.rowAt cell,
      ∀ im ∈ s.controller.model? row, im.2.torrentstate ≠ .closed →
        (s.cells cell).state ≠ .closed
  | .streamer _ _ => True
  | .mainQueue _ => ∀ block ∈ s.controller.mainQueue.head?,
      ∀ row < s.controller.torrentmodels.length,
        s.rowAt (s.controller.cellForRow row) = some row →
          (s.controller.torrentmodels[row]? = some block.1.model ↔
            block.1.cell = s.controller.cellForRow row)

instance (s : Screen) : (e : ScreenEvent) → Decidable (s.Suits e)
  | .display row _ => inferInstanceAs (Decidable (∀ im ∈ s.controller.model? row, _ ∧ _))
  | .tap _ cell => inferInstanceAs (Decidable (s.controller.startButtonEnabled cell = true →
      ∀ row ∈ s.rowAt cell, ∀ im ∈ s.controller.model? row, im.2.torrentstate ≠ .closed → _))
  | .streamer _ _ => .isTrue trivial
  | .mainQueue _ => inferInstanceAs (Decidable (∀ block ∈ s.controller.mainQueue.head?,
      ∀ row < s.controller.torrentmodels.length,
        s.rowAt (s.controller.cellForRow row) = some row → (_ ↔ _)))

/-- What every state of a run keeps. -/
structure Screen.Own (s : Screen) : Prop where
  nodup : s.controller.torrentmodels.Nodup
  listed : ∀ cell row, s.rowAt cell = some row → row < s.controller.torrentmodels.length
  shows : ∀ cell row i model, s.rowAt cell = some row →
    s.controller.model? row = some (i, model) → (s.cells cell).Shows model

theorem Screen.Own.showsOwn (h : s.Own) : s.ShowsOwn :=
  fun cell row i model hrow hmodel => (h.shows cell row i model hrow hmodel).look

/-- The same cells in the same rows. -/
theorem rowAt_congr (hrows : s'.rowOf = s.rowOf)
    (hcells : s'.controller.cellForRow = s.controller.cellForRow) (cell : Nat) :
    s'.rowAt cell = s.rowAt cell := by
  unfold Screen.rowAt
  rw [hrows, hcells]

theorem own_display {row cell : Nat} (h : s.Own) (hsuits : s.Suits (.display row cell))
    (hx : display row cell s = .ok u s') : s'.Own := by
  obtain ⟨i, model, hmodel, hcontroller, hcells, hrows⟩ := display_ok hx
  obtain ⟨hi, -⟩ := model?_eq_some.mp hmodel
  obtain ⟨hicon, hprogress⟩ := hsuits _ hmodel
  have htorrents : s'.controller.torrentmodels = s.controller.torrentmodels := by
    rw [hcontroller]
  -- the cell shows the row, and the others go on unless they showed it
  have hrowAt : ∀ cell' row', s'.rowAt cell' = some row' →
      (cell' = cell ∧ row' = row) ∨ (cell' ≠ cell ∧ s.rowAt cell' = some row') := by
    intro cell' row' hrow'
    obtain ⟨hof, hcell'⟩ := rowAt_eq_some.mp hrow'
    rw [hrows] at hof
    rw [hcontroller] at hcell'
    replace hcell' : Function.update s.controller.cellForRow row cell row' = cell' := hcell'
    by_cases hcell : cell' = cell
    · subst hcell
      rw [Function.update_self] at hof
      exact Or.inl ⟨rfl, (Option.some.inj hof).symm⟩
    · rw [Function.update_of_ne hcell] at hof
      by_cases hrow : row' = row
      · subst hrow
        rw [Function.update_self] at hcell'
        exact absurd hcell'.symm hcell
      · rw [Function.update_of_ne hrow] at hcell'
        exact Or.inr ⟨hcell, rowAt_eq_some.mpr ⟨hof, hcell'⟩⟩
  refine ⟨by rw [htorrents]; exact h.nodup, fun cell' row' hrow' => ?_,
    fun cell' row' j model' hrow' hmodel' => ?_⟩
  · rw [htorrents]
    rcases hrowAt cell' row' hrow' with ⟨-, rfl⟩ | ⟨-, hold⟩
    · exact (List.getElem?_eq_some_iff.mp hi).1
    · exact h.listed cell' row' hold
  · rw [hcontroller] at hmodel'
    replace hmodel' : s.controller.model? row' = some (j, model') := hmodel'
    rw [hcells]
    rcases hrowAt cell' row' hrow' with ⟨rfl, rfl⟩ | ⟨hcell, hold⟩
    · obtain ⟨-, rfl⟩ := Prod.mk.inj (Option.some.inj (hmodel.symm.trans hmodel'))
      rw [Function.update_self]
      exact shows_cellForRow hicon hprogress
    · rw [Function.update_of_ne hcell]
      exact h.shows cell' row' j model' hold hmodel'

/-- One model is changed, and the cell of its row is updated from it. -/
theorem Screen.Own.update {cell i : Nat} {new : TorrentModel} (h : s.Own)
    (htorrents : s'.controller.torrentmodels = s.controller.torrentmodels)
    (hcellForRow : s'.controller.cellForRow = s.controller.cellForRow)
    (hrows : s'.rowOf = s.rowOf)
    (hmodels : s'.controller.models = (s.controller.setModel i new).models)
    (hcells : s'.cells = Function.update s.cells cell ((s.cells cell).updateFromModel new))
    (hown : ∀ cell' row, s.rowAt cell' = some row →
      (s.controller.torrentmodels[row]? = some i ↔ cell = cell'))
    (hshows : ∀ row model, s.rowAt cell = some row →
      s.controller.model? row = some (i, model) →
        ((s.cells cell).updateFromModel new).Shows new) : s'.Own := by
  have hrowAt := rowAt_congr hrows hcellForRow
  refine ⟨by rw [htorrents]; exact h.nodup, fun cell' row hrow => ?_,
    fun cell' row j model hrow hmodel => ?_⟩
  · rw [hrowAt] at hrow
    rw [htorrents]
    exact h.listed cell' row hrow
  · rw [hrowAt] at hrow
    have hset : (s.controller.setModel i new).model? row = some (j, model) := by
      obtain ⟨hj, hnew⟩ := model?_eq_some.mp hmodel
      exact model?_eq_some.mpr ⟨by rw [← hj, htorrents]; rfl, by rw [← hmodels]; exact hnew⟩
    obtain ⟨old, hold, rfl⟩ := model?_setModel hset
    obtain ⟨hj, -⟩ := model?_eq_some.mp hold
    have hiff := hown cell' row hrow
    rw [hcells]
    by_cases hji : j = i
    · -- this is the row of the model, and the cell is its own
      subst hji
      obtain rfl := hiff.mp hj
      rw [if_pos rfl, Function.update_self]
      exact hshows row old hrow hold
    · have hcell : cell' ≠ cell := by
        rintro rfl
        have hi := hj.symm.trans (hiff.mpr rfl)
        exact hji (Option.some.inj hi)
      rw [if_neg hji, Function.update_of_ne hcell]
      exact h.shows cell' row j old hrow hold

theorem own_tapCell {env : Env} {cell : Nat} (h : s.Own) (hsuits : s.Suits (.tap env cell))
    (hx : tapCell env cell s = .ok u s') :
    s'.Own ∧ (ScreenEvent.tap env cell).Spares s s' := by
  rcases tapCell_ok hx with rfl | ⟨row, i, model, hrow, henabled, hmodel, hmodels, htorrents,
    hcellForRow, hothers, hcells, hrows⟩
  · exact ⟨h, fun _ _ _ _ => ⟨rfl, rfl⟩⟩
  have hopen := hsuits henabled row hrow _ hmodel
  constructor
  · refine h.update htorrents hcellForRow hrows hmodels hcells (fun cell' row' hrow' => ?_)
      fun row' model' hrow' hmodel' => ?_
    · -- only one row has the model, and only one cell the row
      constructor
      · intro hi
        have hmodel' := model?_eq_some.mpr ⟨hi, (model?_eq_some.mp hmodel).2⟩
        rw [row_unique h.nodup hmodel' hmodel] at hrow'
        exact (rowAt_eq_some.mp hrow).2.symm.trans (rowAt_eq_some.mp hrow').2
      · rintro rfl
        obtain rfl := Option.some.inj (hrow.symm.trans hrow')
        exact (model?_eq_some.mp hmodel).1
    · obtain rfl := Option.some.inj (hrow.symm.trans hrow')
      obtain ⟨-, rfl⟩ := Prod.mk.inj (Option.some.inj (hmodel.symm.trans hmodel'))
      exact shows_toggled (h.shows cell row i model hrow hmodel) hopen
  · intro cell' row' hrow' hconcerns
    have hcell : cell' ≠ cell := by
      rintro rfl
      exact hconcerns hrow'
    rw [hcells, Function.update_of_ne hcell]
    exact ⟨rfl, hothers cell' hcell⟩

theorem own_runCellBlock {visible : Bool} (h : s.Own) (hsuits : s.Suits (.mainQueue visible))
    (hx : runCellBlock visible s = .ok u s') :
    s'.Own ∧ (ScreenEvent.mainQueue visible).Spares s s' := by
  rcases runCellBlock_ok hx with ⟨hrows, hcells, hcontroller⟩ |
    ⟨b, status, rest, model, hqueue, hmodel, hcontroller, hcells, hrows⟩
  · have hrowAt := rowAt_congr hrows (by rw [hcontroller])
    refine ⟨⟨by rw [hcontroller]; exact h.nodup, fun cell row hrow => ?_,
      fun cell row i model hrow hmodel => ?_⟩, fun _ _ _ _ => ?_⟩
    · rw [hrowAt] at hrow
      rw [hcontroller]
      exact h.listed cell row hrow
    · rw [hrowAt] at hrow
      rw [hcontroller] at hmodel
      rw [hcells]
      exact h.shows cell row i model hrow hmodel
    · rw [hcells, hcontroller]
      exact ⟨rfl, rfl⟩
  -- the block that runs was put there for the row that its cell still shows
  have hown : ∀ cell row, s.rowAt cell = some row →
      (s.controller.torrentmodels[row]? = some b.model ↔ b.cell = cell) := by
    intro cell row hrow
    have hcell := (rowAt_eq_some.mp hrow).2
    have hiff := hsuits (b, status) (by rw [hqueue]; rfl) row (h.listed cell row hrow)
      (by rw [hcell]; exact hrow)
    rwa [hcell] at hiff
  constructor
  · refine h.update (by rw [hcontroller]; rfl) (by rw [hcontroller]; rfl) hrows
      (by rw [hcontroller]; rfl) hcells hown fun row model' hrow hmodel' => ?_
    obtain ⟨-, hmodel₀⟩ := model?_eq_some.mp hmodel'
    obtain rfl := Option.some.inj (hmodel.symm.trans hmodel₀)
    exact shows_status (h.shows b.cell row b.model model hrow hmodel')
  · intro cell row hrow hconcerns
    have hcell : cell ≠ b.cell := by
      rintro rfl
      refine hconcerns ⟨(b, status), by rw [hqueue]; rfl, ?_⟩
      exact (hown b.cell row hrow).mpr rfl
    rw [hcells, Function.update_of_ne hcell, hcontroller]
    refine ⟨rfl, ?_⟩
    show Function.update s.controller.startButtonEnabled b.cell true cell = _
    rw [Function.update_of_ne hcell]

theorem own_streamer {row : Nat} {e : Delivery} (h : s.Own)
    (hx : viewed (.streamer row e) s = .ok u s') :
    s'.Own ∧ (ScreenEvent.streamer row e).Spares s s' := by
  obtain ⟨c, hc, rfl⟩ := viewed_ok hx
  -- an event of a streamer changes what is kept under its row, and nothing on the screen
  have hsame : c.models = s.controller.models ∧ c.torrentmodels = s.controller.torrentmodels ∧
      c.cellForRow = s.controller.cellForRow ∧
      c.startButtonEnabled = s.controller.startButtonEnabled := by
    rw [viewStep, view_get_bind] at hc
    cases hs : s.controller.torrentsessions row with
    | none =>
        rw [hs] at hc
        cases hc
        exact ⟨rfl, rfl, rfl, rfl⟩
    | some streamer =>
        rw [hs] at hc
        obtain ⟨m, -, rfl⟩ := send_ok hc
        exact ⟨rfl, rfl, rfl, rfl⟩
  obtain ⟨hmodels, htorrents, hcellForRow, henabled⟩ := hsame
  have hrowAt : ∀ cell, Screen.rowAt { s with controller := c } cell = s.rowAt cell :=
    rowAt_congr rfl hcellForRow
  refine ⟨⟨by rw [htorrents]; exact h.nodup, fun cell row' hrow => ?_,
    fun cell row' i model hrow hmodel => ?_⟩, fun cell row' _ _ => ⟨rfl, by rw [henabled]⟩⟩
  · rw [hrowAt] at hrow
    rw [htorrents]
    exact h.listed cell row' hrow
  · rw [hrowAt] at hrow
    refine h.shows cell row' i model hrow ?_
    rw [model?_eq_some] at hmodel ⊢
    rwa [hmodels, htorrents] at hmodel

/-- **The step lemma.** -/
theorem own_step {e : ScreenEvent} (h : s.Own) (hsuits : s.Suits e)
    (hx : screenStep e s = .ok u s') : s'.Own ∧ e.Spares s s' := by
  cases e with
  | display row cell =>
      exact ⟨own_display h hsuits hx, fun _ _ _ hconcerns => absurd trivial hconcerns⟩
  | tap env cell => exact own_tapCell h hsuits hx
  | streamer row e => exact own_streamer h hx
  | mainQueue visible => exact own_runCellBlock h hsuits hx

/-! ## Runs -/

/-- **Every cell shows its own row** in every state of every run whose steps all meet the
condition, and no step that meets it changes the cell of another row. -/
theorem showsOwn_of_suits {s₀ : Screen} {es : List ScreenEvent}
    (hnodup : s₀.controller.torrentmodels.Nodup) (hblank : ∀ cell, s₀.rowOf cell = none)
    (hsuits : EachBefore screenStep Screen.Suits es s₀) (hrun : each screenStep es s₀ = .ok () s) :
    s.ShowsOwn ∧ ∀ e s', s.Suits e → screenStep e s = .ok () s' → e.Spares s s' := by
  have hrowAt : ∀ cell, s₀.rowAt cell = none := by
    intro cell
    rw [Screen.rowAt, hblank]
    rfl
  have hblankOwn : s₀.Own := by
    refine ⟨hnodup, fun cell row hrow => ?_, fun cell row i model hrow => ?_⟩
    · rw [hrowAt] at hrow
      cases hrow
    · rw [hrowAt] at hrow
      cases hrow
  have hown : s.Own :=
    run_of_eachBefore (fun _ _ _ h hsuits hx => (own_step h hsuits hx).1) hblankOwn hsuits hrun
  exact ⟨hown.showsOwn, fun e s' hsuits hx => (own_step hown hsuits hx).2⟩

/-- The screen after events that all return. -/
def screenAfter (es : List ScreenEvent) (s₀ : Screen) : Option Screen :=
  match each screenStep es s₀ with
  | .ok () s => some s
  | .error _ _ => none

theorem run_of_screenAfter {es : List ScreenEvent} {s₀ : Screen} (h : screenAfter es s₀ = some s) :
    each screenStep es s₀ = .ok () s := by
  unfold screenAfter at h
  split at h
  · rename_i s₁ hrun
    rw [hrun, Option.some.inj h]
  · cases h

/-- A folder with two films, none of them on the screen yet. -/
def twoRows : Screen where
  controller := ({} : Controller).list [("a.torrent".toList, 40), ("b.torrent".toList, 40)] id

theorem nodup_twoRows : twoRows.controller.torrentmodels.Nodup := List.nodup_range'

/-- The first row is started, and its cell is recycled for the second, which is closed: the icon
of the first stays. -/
theorem not_showsOwn_recycled :
    ¬ ∀ (s₀ s : Screen) (es : List ScreenEvent), s₀.controller.torrentmodels.Nodup →
      (∀ cell, s₀.rowOf cell = none) → each screenStep es s₀ = .ok () s → s.ShowsOwn := by
  intro hall
  let es : List ScreenEvent := [.display 0 0,
    .tap (.calm (Metadata.films 1 40 []) fun _ => false) 0, .display 1 0]
  have hfinal : (screenAfter es twoRows).map (fun s => (s.rowAt 0, (s.cells 0).image,
      (s.controller.model? 1).map fun im => im.2.icon)) =
      some (some 1, .pause, some .resume) := by decide +kernel
  obtain ⟨s, hs, hmap⟩ := Option.map_eq_some_iff.mp hfinal
  simp only [Prod.mk.injEq] at hmap
  obtain ⟨hrow, himage, hicon⟩ := hmap
  obtain ⟨⟨i, model⟩, hmodel, hresume⟩ := Option.map_eq_some_iff.mp hicon
  have hlook := hall twoRows s es nodup_twoRows (fun _ => rfl) (run_of_screenAfter hs) 0 1 i model
    hrow hmodel
  have himages : (s.cells 0).image = model.icon := congrArg (fun look => look.2.1) hlook
  rw [himage, hresume] at himages
  cases himages

/-- Both rows are on the screen, the first is started and shows its progress. -/
theorem showsOwn_started :
    let env := Env.calm (Metadata.films 1 40 []) fun _ => false
    let es : List ScreenEvent := [.display 0 0, .display 1 1, .tap env 0,
      .streamer 0 ⟨.alertsLoop [(env, .pieceFinished 0 0)], trivial⟩,
      .streamer 0 ⟨.mainQueue, trivial⟩, .streamer 0 ⟨.mainQueue, trivial⟩, .mainQueue true]
    ∃ s, each screenStep es twoRows = .ok () s ∧ s.rowAt 0 = some 0 ∧
      (s.cells 0).stateLabel = TorrentState.seeding.text ∧ s.ShowsOwn := by
  intro env es
  have hfinal : (screenAfter es twoRows).map (fun s => (s.rowAt 0, (s.cells 0).stateLabel)) =
      some (some 0, TorrentState.seeding.text) := by decide +kernel
  obtain ⟨s, hs, hmap⟩ := Option.map_eq_some_iff.mp hfinal
  simp only [Prod.mk.injEq] at hmap
  obtain ⟨hrow, htext⟩ := hmap
  have hrun := run_of_screenAfter hs
  refine ⟨s, hrun, hrow, htext, ?_⟩
  exact (showsOwn_of_suits nodup_twoRows (fun _ => rfl) (by decide +kernel) hrun).1

end BtDownloader
