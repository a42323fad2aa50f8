import BtDownloader.Client.Methods

set_option autoImplicit false

/-! # Several streamers in one process

Each row of the list has a `PTTorrentStreamer` of its own, but `MIN_PIECES`,
`selectedFileIndex` and `shouldUserSelectFiles` are file-level variables, so all streamers
read and write the same three. Every method is local in the sense of `Lib/Shared.lean`;
the streamers are therefore independent in every interleaving in which no step reads a
value that another streamer wrote, and only there is it guaranteed.
-/

namespace BtDownloader

open Program Shared

/-! ## The shared variables as a view of the machine -/

/-- The value of a file-level variable, the flag as `0` or `1`. -/
def Globals.val (v : GlobalVar) (g : Globals) : Int :=
  match v with
  | .minPieces => g.minPieces
  | .selectedFileIndex => g.selectedFileIndex
  | .shouldUserSelectFiles => if g.shouldUserSelectFiles then 1 else 0

theorem Globals.shouldUserSelectFiles_eq {g g' : Globals}
    (h : g.val .shouldUserSelectFiles = g'.val .shouldUserSelectFiles) :
    g.shouldUserSelectFiles = g'.shouldUserSelectFiles := by
  simp only [val] at h
  cases hg : g.shouldUserSelectFiles <;> cases hg' : g'.shouldUserSelectFiles <;> simp_all

def machineView : View Machine GlobalVar Int Streamer where
  val v m := m.globals.val v
  rest := Machine.streamer
  log := Machine.accesses

/-! ## Every method is local -/

theorem local_gets {α : Type} (f : Streamer → α) : Local machineView (gets f) := by
  intro s
  refine ⟨[], View.Leads.refl s, fun t ht _ => ⟨?_, ht, View.Leads.refl t, by simp [writes]⟩⟩
  show Except.ok (f t.streamer) = Except.ok (f s.streamer)
  rw [show t.streamer = s.streamer from ht]

theorem local_modifies (f : Streamer → Streamer) : Local machineView (modifies f) := by
  intro s
  have hlead : ∀ m : Machine, machineView.Leads [] m { m with streamer := f m.streamer } :=
    fun m => ⟨(List.append_nil _).symm, fun _ _ => rfl⟩
  refine ⟨[], hlead s, fun t ht _ => ⟨rfl, ?_, hlead t, by simp [writes]⟩⟩
  show f t.streamer = f s.streamer
  rw [show t.streamer = s.streamer from ht]

theorem local_getMinPieces : Local machineView getMinPieces := by
  intro s
  refine ⟨[.read .minPieces], ⟨rfl, fun _ _ => rfl⟩,
    fun t ht hv => ⟨?_, ht, ⟨rfl, fun _ _ => rfl⟩, by simp [writes]⟩⟩
  have h : t.globals.minPieces = s.globals.minPieces := hv .minPieces (by simp [firstReads])
  exact congrArg Except.ok h

theorem local_getSelectedFileIndex : Local machineView getSelectedFileIndex := by
  intro s
  refine ⟨[.read .selectedFileIndex], ⟨rfl, fun _ _ => rfl⟩,
    fun t ht hv => ⟨?_, ht, ⟨rfl, fun _ _ => rfl⟩, by simp [writes]⟩⟩
  have h : t.globals.selectedFileIndex = s.globals.selectedFileIndex :=
    hv .selectedFileIndex (by simp [firstReads])
  exact congrArg Except.ok h

theorem local_getShouldUserSelectFiles : Local machineView getShouldUserSelectFiles := by
  intro s
  refine ⟨[.read .shouldUserSelectFiles], ⟨rfl, fun _ _ => rfl⟩,
    fun t ht hv => ⟨?_, ht, ⟨rfl, fun _ _ => rfl⟩, by simp [writes]⟩⟩
  have h : t.globals.shouldUserSelectFiles = s.globals.shouldUserSelectFiles :=
    Globals.shouldUserSelectFiles_eq (hv .shouldUserSelectFiles (by simp [firstReads]))
  exact congrArg Except.ok h

/-- An assignment to one file-level variable is local. -/
theorem local_write (v : GlobalVar) (f : Globals → Globals)
    (hother : ∀ g w, w ≠ v → (f g).val w = g.val w)
    (hsame : ∀ g g', (f g).val v = (f g').val v) :
    Local machineView (fun m : Machine => (.ok () { m with
      globals := f m.globals
      accesses := m.accesses ++ [.write v] } : EStateM.Result Fault Machine Unit)) := by
  intro s
  have hlead : ∀ m : Machine, machineView.Leads [.write v] m { m with
      globals := f m.globals, accesses := m.accesses ++ [.write v] } := by
    refine fun m => ⟨rfl, fun w hw => hother m.globals w ?_⟩
    simpa [writes] using hw
  refine ⟨[.write v], hlead s, fun t ht _ => ⟨rfl, ht, hlead t, fun w hw => ?_⟩⟩
  obtain rfl : w = v := by simpa [writes] using hw
  exact hsame t.globals s.globals

theorem local_setMinPieces (n : Int) : Local machineView (setMinPieces n) :=
  local_write .minPieces (fun g => { g with minPieces := n })
    (by rintro g (_ | _ | _) h <;> first | exact absurd rfl h | rfl) (fun _ _ => rfl)

theorem local_setSelectedFileIndex (i : Int) : Local machineView (setSelectedFileIndex i) :=
  local_write .selectedFileIndex (fun g => { g with selectedFileIndex := i })
    (by rintro g (_ | _ | _) h <;> first | exact absurd rfl h | rfl) (fun _ _ => rfl)

theorem local_setShouldUserSelectFiles (b : Bool) :
    Local machineView (setShouldUserSelectFiles b) :=
  local_write .shouldUserSelectFiles (fun g => { g with shouldUserSelectFiles := b })
    (by rintro g (_ | _ | _) h <;> first | exact absurd rfl h | rfl) (fun _ _ => rfl)

theorem local_compositional :
    Compositional fun {α : Type} (x : Handler α) => Local machineView x where
  composes := { pure := Local.pure, bind := Local.bind }
  throw _ := Local.throw _
  gets := local_gets
  modifies := local_modifies
  getMinPieces := local_getMinPieces
  getSelectedFileIndex := local_getSelectedFileIndex
  getShouldUserSelectFiles := local_getShouldUserSelectFiles
  setMinPieces := local_setMinPieces
  setSelectedFileIndex := local_setSelectedFileIndex
  setShouldUserSelectFiles := local_setShouldUserSelectFiles

theorem local_nextRequiredPiece : Local machineView nextRequiredPiece := by
  have horFault : ∀ o : Option Int, Local machineView (orFault .requiredPieces o) := by
    intro o
    cases o with
    | none => exact Local.throw _
    | some a => exact Local.pure a
  refine Local.bind (local_gets _) fun firstPiece => ?_
  split
  · exact Local.pure _
  refine Local.bind (local_gets _) fun required => ?_
  split
  · exact Local.bind local_getMinPieces fun _ => Local.bind (horFault _) fun _ => Local.pure _
  · exact Local.pure _

/-- **Every step of a streamer is local**: it depends on the file-level variables only
through those it reads before writing them. -/
theorem local_step (e : Event) : Local machineView (step e) :=
  local_compositional.step local_nextRequiredPiece e

/-! ## The streamers of the list -/

/-- What an event leaves of the shared variables and of one streamer. -/
def exec : Exec Fault GlobalVar Globals Streamer Event := fun e g l =>
  match step e { globals := g, streamer := l } with
  | .ok () m => ⟨none, m.globals, m.streamer, m.accesses⟩
  | .error fault m => ⟨some fault, m.globals, m.streamer, m.accesses⟩

/-- The fault that a method stops with. -/
def stepFault : EStateM.Result Fault Machine Unit → Option Fault
  | .ok _ _ => none
  | .error fault _ => some fault

theorem stepFault_eq {r r' : EStateM.Result Fault Machine Unit} (h : answer r' = answer r) :
    stepFault r' = stepFault r := by
  cases r with
  | ok u m =>
      cases r' with
      | ok u' m' => rfl
      | error fault' m' => cases h
  | error fault m =>
      cases r' with
      | ok u' m' => cases h
      | error fault' m' => exact congrArg some (Except.error.inj h)

/-- The end of a step, as an outcome. -/
theorem exec_eq (e : Event) (g : Globals) (l : Streamer) :
    let r := step e { globals := g, streamer := l }
    (exec e g l).fault = stepFault r ∧ (exec e g l).store = (endState r).globals ∧
      (exec e g l).own = (endState r).streamer ∧
      (exec e g l).accesses = (endState r).accesses := by
  unfold exec
  cases step e { globals := g, streamer := l } with
  | ok u m => exact ⟨rfl, rfl, rfl, rfl⟩
  | error fault m => exact ⟨rfl, rfl, rfl, rfl⟩

/-- A step that is made from other shared variables, but finds the same in those it reads
first. -/
theorem exec_same (e : Event) (g g₂ : Globals) (l : Streamer)
    (hg₂ : ∀ v ∈ firstReads (exec e g l).accesses, g₂.val v = g.val v) :
    (exec e g₂ l).fault = (exec e g l).fault ∧ (exec e g₂ l).own = (exec e g l).own ∧
      (exec e g₂ l).accesses = (exec e g l).accesses ∧
      ∀ v ∈ writes (exec e g l).accesses, (exec e g₂ l).store.val v = (exec e g l).store.val v := by
  obtain ⟨l₁, hlead, hsame⟩ := local_step e { globals := g, streamer := l }
  obtain ⟨hfault, hstore, hown, haccesses⟩ := exec_eq e g l
  obtain ⟨hfault₂, hstore₂, hown₂, haccesses₂⟩ := exec_eq e g₂ l
  -- the accesses of the step are the ones it recorded
  obtain rfl : (exec e g l).accesses = l₁ := by
    rw [haccesses]
    exact hlead.log_eq
  obtain ⟨hans, hrest, hlead₂, hval⟩ := hsame { globals := g₂, streamer := l } rfl hg₂
  refine ⟨?_, ?_, ?_, ?_⟩
  · rw [hfault, hfault₂]
    exact stepFault_eq hans
  · rw [hown, hown₂]
    exact hrest
  · rw [haccesses₂]
    exact hlead₂.log_eq
  · rw [hstore, hstore₂]
    exact hval

theorem exec_local : LocalExec exec Globals.val where
  frame e g l v hv := by
    obtain ⟨l₁, hlead, -⟩ := local_step e { globals := g, streamer := l }
    obtain ⟨-, hstore, -, haccesses⟩ := exec_eq e g l
    obtain rfl : (exec e g l).accesses = l₁ := by
      rw [haccesses]
      exact hlead.log_eq
    rw [hstore]
    exact hlead.val_eq v hv
  fault_eq e g l g₂ hg₂ := (exec_same e g g₂ l hg₂).1
  own_eq e g l g₂ hg₂ := (exec_same e g g₂ l hg₂).2.1
  accesses_eq e g l g₂ hg₂ := (exec_same e g g₂ l hg₂).2.2.1
  val_eq e g l g₂ hg₂ := (exec_same e g g₂ l hg₂).2.2.2

/-- The streamers of the list before anything has happened: one for each row, and the
file-level variables as they are initialised. -/
def initialSystem (firstHandle : Nat → Nat) : System Nat GlobalVar Globals Streamer where
  store := {}
  locals row := Streamer.init (firstHandle row)
  owner _ := none

/-- The streamer of `row` ends the interleaving `es` with the state, the commands and the
callbacks that its own events alone lead to, and so do the file-level variables that no
other streamer wrote last. Of an interleaving that a fault stops, this is about the steps up to
the fault, and the fault is `row`'s own where its events alone lead to it. -/
def AsIfAlone (firstHandle : Nat → Nat) (es : List (Nat × Event)) (row : Nat) : Prop :=
  let S₀ := initialSystem firstHandle
  let S := (S₀.run exec es).1
  let alone := S₀.run exec ((S₀.taken exec es).filter (·.1 = row))
  alone.2 = (S₀.run exec es).2.filter (·.1 = row) ∧
    alone.1.locals row = S.locals row ∧
    ∀ v, S.owner v = none ∨ S.owner v = some row → alone.1.store.val v = S.store.val v

/-- Two torrent files are started one after the other, then a piece of the first finishes. -/
def twoDownloads : List (Nat × Event) :=
  let first := Env.calm (Metadata.films 1 40 []) fun _ => true
  let second := Env.calm (Metadata.films 2 80 []) fun _ => true
  [(0, .start first "a.torrent".toList none none none),
   (1, .start second "b.torrent".toList none none none),
   (0, .alertsLoop [(first, .pieceFinished 0 0)])]

end BtDownloader
