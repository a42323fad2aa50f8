import BtDownloader.Client.Cancel
import BtDownloader.Client.SingleRun

set_option autoImplicit false

/-! # The batches of the alerts loop

One pass of `alertsLoop` handles a batch of alerts that were popped together. Two handlers
remove torrents in the middle of a batch, and the loop goes on with the alerts behind them.

* `handlesPresent_run`: in which runs every handler finds the torrent of its alert in the
  session.
-/

namespace BtDownloader

open Program

variable {m m' : Machine}

/-! ## What an alert leaves in the session -/

/-- The torrent an alert is about. -/
def Alert.handle : Alert → Nat
  | .metadataReceived h => h
  | .pieceFinished h _ => h
  | .torrentFinished h => h
  | .saveResumeData h => h

/-- The torrents that are left of `hs` once the alert is handled. -/
def Alert.leaves (a : Alert) (hs : List Nat) : List Nat :=
  match a with
  | .torrentFinished h => hs.filter (· ≠ h)
  | .saveResumeData _ => []
  | _ => hs

/-- The handles of the session's torrents. -/
def Session.handles (session : Session) : List Nat := session.torrents.map (·.handle)

theorem leaves_subset (a : Alert) (hs : List Nat) : a.leaves hs ⊆ hs := by
  cases a with
  | torrentFinished h => exact List.filter_sublist.subset
  | saveResumeData h => exact List.nil_subset hs
  | _ => exact List.Subset.refl hs

theorem leaves_mono (a : Alert) {hs hs' : List Nat} (h : hs ⊆ hs') :
    a.leaves hs ⊆ a.leaves hs' := by
  cases a with
  | torrentFinished n =>
      intro x hx
      obtain ⟨hmem, hne⟩ := List.mem_filter.mp hx
      exact List.mem_filter.mpr ⟨h hmem, hne⟩
  | saveResumeData n => exact List.Subset.refl []
  | _ => exact h

theorem handles_cancel {env : Env} {u : Unit}
    (hx : cancelStreamingAndDeleteData env false m = .ok u m') :
    m'.streamer.session.handles = m.streamer.session.handles := by
  obtain ⟨-, session, es, -, hs, -, htorrents, -⟩ := cancel_keeping_ok hx
  rw [hs]
  show session.torrents.map (·.handle) = _
  rw [htorrents, List.map_map]
  rfl

theorem handles_metadataReceivedAlert {env : Env} {h : Nat} {u : Unit}
    (hx : metadataReceivedAlert env h m = .ok u m') :
    m'.streamer.session.handles = m.streamer.session.handles := by
  obtain ⟨-, -, ⟨-, m₁, -, hs₁, hcancel⟩ | ⟨-, m₁, -, hs₁, hselect⟩⟩ := metadataReceivedAlert_ok hx
  · rw [handles_cancel hcancel, hs₁]
    rfl
  · calc m'.streamer.session.handles = m₁.streamer.session.handles :=
          (frames_selectFile hselect).handles
      _ = m.streamer.session.handles := by rw [hs₁]; rfl

theorem handles_pieceFinishedAlert {env : Env} {h : Nat} {u : Unit}
    (hx : pieceFinishedAlert env h m = .ok u m') :
    m'.streamer.session.handles = m.streamer.session.handles := by
  obtain ⟨-, n, m₁, -, hs₁, hcases⟩ := pieceFinishedAlert_ok hx
  have hsession₁ : m₁.streamer.session = m.streamer.session := by
    rw [hs₁]
    rfl
  rcases hcases with ⟨-, -, hs'⟩ | ⟨-, m₂, hnext, hagain⟩
  · rw [hs', hsession₁]
  · refine (frames_prioritizeNextPieces hnext).handles.trans ?_
    rcases hagain with ⟨-, -, hs₂⟩ | ⟨-, m₃, -, hs₃, hmeta⟩
    · rw [hs₂, hsession₁]
      rfl
    · rw [← hsession₁, ← hs₃]
      exact handles_metadataReceivedAlert hmeta

/-- **A handled alert leaves the torrents that `Alert.leaves` says.** -/
theorem handles_handleAlert {env : Env} {a : Alert} {u : Unit}
    (hx : handleAlert env a m = .ok u m') :
    m'.streamer.session.handles = a.leaves m.streamer.session.handles := by
  cases a with
  | metadataReceived h => exact handles_metadataReceivedAlert hx
  | pieceFinished h piece => exact handles_pieceFinishedAlert hx
  | torrentFinished h =>
      obtain ⟨-, m₁, hprocess, -, hs'⟩ := torrentFinishedAlert_ok hx
      rw [hs', ← processTorrent_session hprocess]
      show (m₁.streamer.session.torrents.filter (·.handle ≠ h)).map (·.handle) =
        (m₁.streamer.session.torrents.map (·.handle)).filter (· ≠ h)
      rw [List.filter_map]
      rfl
  | saveResumeData h =>
      obtain ⟨st, m₁, h₁, k₁⟩ := bind_eq_ok.mp hx
      obtain ⟨-, -, rfl⟩ := statusOf_eq_ok.mp h₁
      obtain ⟨-, hs'⟩ := resumeDataReadyAlertWithData_ok k₁
      rw [hs']
      rfl

/-! ## Batches that follow the removals -/

/-- Each alert of the batch is about one of the torrents `hs`: not about one that an earlier
torrent-finished alert of the batch removes, and none comes after a save-resume-data alert,
which removes them all. -/
def Follows : List Nat → List Alert → Prop
  | _, [] => True
  | hs, a :: as => a.handle ∈ hs ∧ Follows (a.leaves hs) as

instance decidableFollows : ∀ (hs : List Nat) (as : List Alert), Decidable (Follows hs as)
  | _, [] => .isTrue trivial
  | hs, a :: as =>
      have := decidableFollows (a.leaves hs) as
      inferInstanceAs (Decidable (a.handle ∈ hs ∧ Follows (a.leaves hs) as))

/-- The torrent of the alert is in the session when its handler is invoked. -/
def HandlePresent (m : Machine) (d : Env × Alert) : Prop :=
  d.2.handle ∈ m.streamer.session.handles

instance (m : Machine) (d : Env × Alert) : Decidable (HandlePresent m d) :=
  inferInstanceAs (Decidable (_ ∈ _))

/-- The step of the loop: whether or not libtorrent delivers the alert, the torrents that the
rest of the batch is about are still in the session. -/
theorem subset_dispatchAlert {d : Env × Alert} {hs : List Nat} {u : Unit}
    (hm : hs ⊆ m.streamer.session.handles) (hx : dispatchAlert d.1 d.2 m = .ok u m') :
    d.2.leaves hs ⊆ m'.streamer.session.handles := by
  rw [dispatchAlert_apply] at hx
  by_cases hd : m.streamer.session.canDeliver d.2 = true
  · rw [if_pos hd] at hx
    rw [handles_handleAlert hx]
    exact leaves_mono d.2 hm
  · rw [if_neg hd] at hx
    cases hx
    exact List.Subset.trans (leaves_subset d.2 hs) hm

/-- **A batch that follows the removals finds its torrents**, by induction on the batch. -/
theorem eachBefore_of_follows {batch : List (Env × Alert)} {hs : List Nat}
    (hm : hs ⊆ m.streamer.session.handles) (hfollows : Follows hs (batch.map (·.2))) :
    EachBefore (fun d : Env × Alert => dispatchAlert d.1 d.2)
      (fun m d => m.streamer.session.canDeliver d.2 = true → HandlePresent m d) batch m := by
  induction batch generalizing m hs with
  | nil => trivial
  | cons d batch ih =>
      obtain ⟨hmem, hrest⟩ := hfollows
      refine eachBefore_cons.mpr ⟨fun _ => hm hmem, fun m₁ hx => ?_⟩
      exact ih (subset_dispatchAlert hm hx) hrest

/-- The batch of a pass follows the removals from the torrents the pass finds. -/
def BatchFollows (m : Machine) : Event → Prop
  | .alertsLoop batch => m.streamer.alertsLoopActive = true →
      Follows m.streamer.session.handles (batch.map (·.2))
  | _ => True

instance (m : Machine) : ∀ e : Event, Decidable (BatchFollows m e)
  | .alertsLoop batch => inferInstanceAs (Decidable (m.streamer.alertsLoopActive = true →
      Follows m.streamer.session.handles (batch.map (·.2))))
  | .start .. => .isTrue trivial
  | .startMulti .. => .isTrue trivial
  | .cancel .. => .isTrue trivial
  | .fastForward .. => .isTrue trivial
  | .mainQueue => .isTrue trivial
  | .metadataArrives .. => .isTrue trivial

/-- **No handler uses a removed torrent** in a run whose batches all follow the removals: each
is invoked while the torrent of its alert is in the session. -/
theorem handlesPresent_run {n : Nat} {es : List Event}
    (hfollows : EachBefore step BatchFollows es (Machine.init n)) :
    EachBefore step (AlertsMeet HandlePresent) es (Machine.init n) := by
  refine hfollows.imp fun m e he => ?_
  cases e with
  | alertsLoop batch =>
      intro hactive
      exact eachBefore_of_follows (List.Subset.refl _) (he hactive)
  | _ => trivial

/-- A torrent is started; one pass of the alerts loop pops the alerts `as`. -/
def startAndPop (as : List Alert) : List Event :=
  let env := Env.calm (Metadata.films 1 40 []) fun _ => true
  [.start env "a.torrent".toList none none none, .alertsLoop (as.map fun a => (env, a))]

/-- A piece-finished alert behind the torrent-finished alert of its torrent. -/
theorem not_handlesPresent_finishedFirst :
    ¬ ∀ (n : Nat) (es : List Event),
      EachBefore step (AlertsMeet HandlePresent) es (Machine.init n) := by
  intro h
  have hfails : ¬ EachBefore step (AlertsMeet HandlePresent)
      (startAndPop [.torrentFinished 0, .pieceFinished 0 39]) (Machine.init 0) := by
    decide +kernel
  exact hfails (h 0 _)

/-- The same alerts in the other order. -/
theorem handlesPresent_finishedLast :
    EachBefore step (AlertsMeet HandlePresent)
      (startAndPop [.pieceFinished 0 39, .torrentFinished 0]) (Machine.init 0) :=
  handlesPresent_run (by decide +kernel)

end BtDownloader
