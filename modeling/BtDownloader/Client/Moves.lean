import BtDownloader.Client.Cancel
import BtDownloader.Client.Window

set_option autoImplicit false

/-! # The states of one run

Between two starts a streamer makes `Move`s. `Since` are the states of one run: those that moves
lead to from the end of its start. The run's torrent is the one the start added or found, if it
got that far; it is remembered as it was when the session held it last.
-/

namespace BtDownloader

open Program

variable {m m' : Machine}

/-- What can happen to a streamer between two starts. A pass of the alerts loop is one move for
each alert. -/
inductive Move
  | alert (env : Env) (a : Alert)
  | cancel (env : Env) (deleteData : Bool)
  | fastForward (env : Env) (location length : Nat)
  | mainQueue
  | metadataArrives (h : Nat) (md : Metadata)

def Move.perform : Move → Handler Unit
  | .alert env a => dispatchAlert env a
  | .cancel env deleteData => cancelStreamingAndDeleteData env deleteData
  | .fastForward env location length => do
      let _ ← fastForwardTorrentForRange env location length
  | .mainQueue => runMainQueue
  | .metadataArrives h md => modifies (·.mapSession (·.metadataArrives h md))

/-- What the streamer did between `m₀` and `m`. -/
def Machine.did (m₀ m : Machine) : List Effect :=
  m.streamer.effects.drop m₀.streamer.effects.length

/-- The states of the run that the start `e` begins in `m₀`, with its torrent `h` as it was last
in the session. `C` is asked of every move. -/
inductive Since (C : Machine → Move → Prop) (m₀ : Machine) (e : Event) (h : Nat) :
    Machine → Option Torrent → Prop
  | started {m : Machine} (hx : step e m₀ = .ok () m)
      (hh : ∀ h', Effect.added h' ∈ m₀.did m ∨ Effect.found h' ∈ m₀.did m → h' = h) :
      Since C m₀ e h m (m.streamer.session.find? h)
  | moved {m m' : Machine} {seen : Option Torrent} {move : Move} (hm : Since C m₀ e h m seen)
      (hc : C m move) (hx : move.perform m = .ok () m') :
      Since C m₀ e h m' ((m'.streamer.session.find? h).or seen)

/-- The torrent that is remembered is the one in the session, as long as there is one. -/
theorem Since.seen {C : Machine → Move → Prop} {m₀ : Machine} {e : Event} {h : Nat}
    {seen : Option Torrent} {t : Torrent} (hm : Since C m₀ e h m seen)
    (ht : m.streamer.session.find? h = some t) : seen = some t := by
  cases hm with
  | started => exact ht
  | moved => rw [ht, Option.some_or]

/-- The torrent that the effect brings into the run. -/
def Effect.entered? : Effect → Option Nat
  | .added h => some h
  | .found h => some h
  | _ => none

theorem eq_of_entered {L : List Effect} {h : Nat} (hL : L.filterMap Effect.entered? = [h]) :
    ∀ h', Effect.added h' ∈ L ∨ Effect.found h' ∈ L → h' = h := by
  intro h' hmem
  have hentered : h' ∈ L.filterMap Effect.entered? := by
    rw [List.mem_filterMap]
    rcases hmem with hmem | hmem
    · exact ⟨_, hmem, rfl⟩
    · exact ⟨_, hmem, rfl⟩
  rwa [hL, List.mem_singleton] at hentered

/-- The state after a method that returns. -/
def after (x : Handler Unit) (m : Machine) : Option Machine :=
  match x m with
  | .ok () m' => some m'
  | .error _ _ => none

theorem after_eq_some {x : Handler Unit} : after x m = some m' ↔ x m = .ok () m' := by
  unfold after
  constructor
  · intro h
    split at h
    · rename_i m₁ hx
      rw [hx, Option.some.inj h]
    · cases h
  · intro h
    rw [h]

/-- Moves that all meet the condition stay in the run. -/
theorem Since.moves {C : Machine → Move → Prop} {m₀ : Machine} {e : Event} {h : Nat}
    {seen : Option Torrent} (moves : List Move) (hm : Since C m₀ e h m seen)
    (hc : ∀ m₁ move, move ∈ moves → C m₁ move) (hx : each Move.perform moves m = .ok () m') :
    ∃ seen', Since C m₀ e h m' seen' := by
  induction moves generalizing m seen with
  | nil =>
      obtain ⟨-, rfl⟩ := pure_eq_ok.mp hx
      exact ⟨seen, hm⟩
  | cons move moves ih =>
      obtain ⟨m₁, h₁, hrest⟩ := each_cons_ok.mp hx
      refine ih (hm.moved (hc m move List.mem_cons_self) h₁) (fun m₂ move' hmem => ?_) hrest
      exact hc m₂ move' (List.mem_cons_of_mem _ hmem)

theorem sound_move {move : Move} {u : Unit} (hs : m.streamer.Sound)
    (hx : move.perform m = .ok u m') : m'.streamer.Sound := by
  cases move with
  | alert env a => exact sound_dispatchAlert hs hx
  | cancel env deleteData => exact sound_cancel hs hx
  | fastForward env location length =>
      exact sound_step (e := .fastForward env location length) hs hx
  | mainQueue => exact sound_step (e := .mainQueue) hs hx
  | metadataArrives h md => exact sound_step (e := .metadataArrives h md) hs hx

theorem Since.sound {C : Machine → Move → Prop} {m₀ : Machine} {e : Event} {h : Nat}
    {seen : Option Torrent} (hm₀ : m₀.streamer.Sound) (hm : Since C m₀ e h m seen) :
    m.streamer.Sound := by
  induction hm with
  | started hx hh => exact sound_step hm₀ hx
  | moved hm hc hx ih => exact sound_move ih hx

/-! ## The file a streamer takes -/

/-- The file that `selectedFileIndex`, or else a choice made now, names. -/
def Machine.fileIndex? (m : Machine) (ti : TorrentInfo) : Option Int :=
  if m.globals.selectedFileIndex ≠ -1 then some m.globals.selectedFileIndex else m.choice? ti

theorem Chooses.fileIndex {ti : TorrentInfo} {i : Int} {g : Globals} {es : List Effect}
    (h : Chooses m.globals m.streamer.selectionBlock (some ti) i g es) :
    m.fileIndex? ti = some i := by
  unfold Machine.fileIndex?
  cases h with
  | current hsel => rw [if_pos hsel]
  | selects hsel hselects =>
      rw [if_neg (by rw [hsel]; simp)]
      exact hselects.choice

/-! ## Torrents come in by starts alone -/

theorem find?_eq_none_iff {session : Session} {h : Nat} :
    session.find? h = none ↔ h ∉ session.torrents.map (·.handle) := by
  rw [← find?_isSome_iff, ← Option.isSome_iff_exists]
  simp

theorem Session.Under.gone {s s' : Session} {h : Nat} (hunder : s.Under s')
    (hgone : s.find? h = none) : s'.find? h = none := by
  rw [find?_eq_none_iff] at hgone ⊢
  intro hmem
  obtain ⟨t', ht', rfl⟩ := List.mem_map.mp hmem
  obtain ⟨t, ht, hhandle, -⟩ := hunder.mem ht'
  exact hgone (List.mem_map.mpr ⟨t, ht, hhandle⟩)

theorem Streamer.Frames.gone {s s' : Streamer} {h : Nat} (hframes : s.Frames s')
    (hgone : s.session.find? h = none) : s'.session.find? h = none := by
  rw [find?_eq_none_iff] at hgone ⊢
  rwa [hframes.handles]

/-- No move brings a torrent into the session. -/
theorem gone_move {move : Move} {h : Nat} {u : Unit} (hx : move.perform m = .ok u m')
    (hgone : m.streamer.session.find? h = none) : m'.streamer.session.find? h = none := by
  cases move with
  | alert env a =>
      simp only [Move.perform, dispatchAlert_apply] at hx
      split at hx
      · exact (under_handleAlert hx).gone ((Session.Under.deliver _ a).gone hgone)
      · cases hx
        exact hgone
  | cancel env deleteData => exact (under_cancel hx).gone hgone
  | fastForward env location length =>
      obtain ⟨r, hloop⟩ := fastForward_ok hx
      exact (frames_fastForwardLoop hloop).gone hgone
  | mainQueue => exact (frames_runMainQueue hx).gone hgone
  | metadataArrives h' md =>
      simp only [Move.perform, modifies_eq_ok] at hx
      rw [hx]
      exact (frames_metadataArrives h' md m.streamer).gone hgone

end BtDownloader
