import BtDownloader.View.Controller

set_option autoImplicit false

/-! # Rows and their streamers

The streamers are kept under row numbers, while a load makes a new model for each file of the
folder, in the order in which the file manager lists them.

* `agrees_of_loadKeeps`: in which histories every row agrees with the streamer under its number.
-/

namespace BtDownloader

open Program

variable {c c' : Controller} {m m' : Machine} {u : Unit}

/-! ## What is claimed -/

namespace Controller

/-- The streamer of the row has a download that was neither cancelled nor finished. -/
def running (c : Controller) (row : Nat) : Prop := ∃ s ∈ c.torrentsessions row, s.live ≠ none

instance (c : Controller) (row : Nat) : Decidable (c.running row) :=
  inferInstanceAs (Decidable (∃ s ∈ c.torrentsessions row, s.live ≠ none))

/-- The path with which the streamer of the row was started last. -/
def lastStart (c : Controller) (row : Nat) : Option Text :=
  c.starts.foldl (fun last start => if start.1 = row then some start.2 else last) none

/-- **The rows agree with their streamers**: the streamer under the number of a row was started
last with the path of the row, if at all; and where the row is closed, so that a tap starts it,
no download of the streamer is running. -/
def Agrees (c : Controller) : Prop :=
  ∀ row i model, c.model? row = some (i, model) →
    (∀ path, c.lastStart row = some path → path = model.filepath) ∧
    (model.torrentstate = .closed → ¬ c.running row)

end Controller

/-! ## The streamer of a row -/

/-- What happens to a streamer by itself starts no run. -/
theorem live_delivery {e : Delivery} (hlive : m.streamer.live = none)
    (hx : step e.val m = .ok u m') : m'.streamer.live = none := by
  obtain ⟨e, he⟩ := e
  cases e with
  | alertsLoop batch =>
      rcases alertsLoop_ok hx with ⟨-, hbatch⟩ | ⟨-, rfl⟩
      · exact run_of_eachBefore (fun d m₁ m₂ hlive _ hx => live_dispatchAlert hlive hx) hlive
          (eachBefore_of_forall (P := fun _ _ => True) (fun _ _ => trivial) _ _) hbatch
      · exact hlive
  | mainQueue => exact (frames_runMainQueue hx).live_eq.trans hlive
  | metadataArrives h md =>
      simp only [step, modifies_eq_ok] at hx
      rw [hx]
      exact (frames_metadataArrives h md m.streamer).live_eq.trans hlive
  | start | startMulti | cancel | fastForward => exact he.elim

/-! ## Rows and models -/

theorem model?_eq_some {row i : Nat} {model : TorrentModel} :
    c.model? row = some (i, model) ↔
      c.torrentmodels[row]? = some i ∧ c.models[i]? = some model := by
  unfold Controller.model?
  cases hrow : c.torrentmodels[row]? with
  | none => simp
  | some j =>
      cases hmodel : c.models[j]? with
      | none =>
          simp only [Option.bind_eq_bind, Option.bind_some, hmodel, Option.bind_none, reduceCtorEq,
            Option.some.injEq, false_iff, not_and]
          rintro rfl
          simp [hmodel]
      | some model' =>
          simp only [Option.bind_eq_bind, Option.bind_some, hmodel, Option.some.injEq,
            Prod.mk.injEq]
          constructor
          · rintro ⟨rfl, rfl⟩
            exact ⟨rfl, hmodel⟩
          · rintro ⟨rfl, hmodel'⟩
            exact ⟨rfl, Option.some.inj (hmodel.symm.trans hmodel')⟩

/-- The model of a row after one model was changed. -/
theorem model?_setModel {row i j : Nat} {new model : TorrentModel}
    (h : (c.setModel i new).model? row = some (j, model)) :
    ∃ old, c.model? row = some (j, old) ∧ model = if j = i then new else old := by
  obtain ⟨hrow, hmodel⟩ := model?_eq_some.mp h
  have hset : (c.models.set i new)[j]? = some model := hmodel
  rw [List.getElem?_set] at hset
  by_cases hij : i = j
  · subst hij
    rw [if_pos rfl] at hset
    split at hset
    · rename_i hlt
      refine ⟨c.models[i], model?_eq_some.mpr ⟨hrow, List.getElem?_eq_getElem hlt⟩, ?_⟩
      rw [if_pos rfl, Option.some.inj hset]
    · cases hset
  · rw [if_neg hij] at hset
    exact ⟨model, model?_eq_some.mpr ⟨hrow, hset⟩, by rw [if_neg (Ne.symm hij)]⟩

theorem row_unique {row row' i : Nat} {model model' : TorrentModel} (hnodup : c.torrentmodels.Nodup)
    (h : c.model? row = some (i, model)) (h' : c.model? row' = some (i, model')) : row = row' := by
  obtain ⟨hrow, -⟩ := model?_eq_some.mp h
  obtain ⟨hrow', -⟩ := model?_eq_some.mp h'
  obtain ⟨hlt, hi⟩ := List.getElem?_eq_some_iff.mp hrow
  obtain ⟨hlt', hi'⟩ := List.getElem?_eq_some_iff.mp hrow'
  exact (List.Nodup.getElem_inj_iff hnodup).mp (hi.trans hi'.symm)

/-- Where the model of a row is written, this row has the new one and the others are as before. -/
theorem model?_setModel_row {row row' i j : Nat} {old new model : TorrentModel}
    (hnodup : c.torrentmodels.Nodup) (hmodel : c.model? row = some (i, old))
    (h : (c.setModel i new).model? row' = some (j, model)) :
    (row' = row ∧ model = new) ∨ (row' ≠ row ∧ c.model? row' = some (j, model)) := by
  obtain ⟨old', hold, rfl⟩ := model?_setModel h
  by_cases hji : j = i
  · subst hji
    rw [if_pos rfl]
    exact Or.inl ⟨row_unique hnodup hold hmodel, rfl⟩
  · rw [if_neg hji]
    refine Or.inr ⟨?_, hold⟩
    rintro rfl
    exact hji (Prod.mk.inj (Option.some.inj (hold.symm.trans hmodel))).1

/-- The rows of a list that was loaded. -/
theorem model?_list {files : List (Text × Int)} {cellForRow : Nat → Nat} {row i : Nat}
    {model : TorrentModel} (h : (c.list files cellForRow).model? row = some (i, model)) :
    ∃ file, files[row]? = some file ∧ model.filepath = c.torrentPath file.1 ∧
      model.torrentstate = .closed := by
  obtain ⟨hrow, hmodel⟩ := model?_eq_some.mp h
  obtain ⟨hlt, hi⟩ := List.getElem?_eq_some_iff.mp hrow
  have hlt : row < files.length := by simpa [Controller.list] using hlt
  have hi : c.models.length + row = i := by simpa [Controller.list] using hi
  have hmodel : (c.models ++ files.map fun file => ({
      torrentname := file.1
      filepath := c.torrentPath file.1
      totalWanted := file.2 } : TorrentModel))[i]? = some model := hmodel
  rw [List.getElem?_append_right (by omega), ← hi, Nat.add_sub_cancel_left, List.getElem?_map,
    Option.map_eq_some_iff] at hmodel
  obtain ⟨file, hfile, rfl⟩ := hmodel
  exact ⟨file, hfile, rfl, rfl⟩

theorem running_store {row row' : Nat} {m₀ : Machine} :
    (c.store row m₀ m).running row' ↔
      if row' = row then m.streamer.live ≠ none else c.running row' := by
  unfold Controller.running Controller.store
  dsimp only
  by_cases hrow : row' = row
  · subst hrow
    rw [Function.update_self, if_pos rfl]
    simp
  · rw [Function.update_of_ne hrow, if_neg hrow]

/-! ## What keeps the agreement -/

/-- The condition of a load: for each row of the new list, the streamer under its number was
started last with the path of the row, if at all, and no download of it is running. -/
def LoadKeeps (c : Controller) : ViewEvent → Prop
  | .load (.ok files) _ => ∀ file ∈ files.zipIdx,
      (∀ path ∈ c.lastStart file.2, path = c.torrentPath file.1.1) ∧ ¬ c.running file.2
  | _ => True

instance (c : Controller) : (e : ViewEvent) → Decidable (LoadKeeps c e)
  | .load (.ok files) _ => inferInstanceAs (Decidable (∀ file ∈ files.zipIdx,
      (∀ path ∈ c.lastStart file.2, path = c.torrentPath file.1.1) ∧ ¬ c.running file.2))
  | .load (.error _) _ => .isTrue trivial
  | .tap _ _ => .isTrue trivial
  | .reuse _ => .isTrue trivial
  | .streamer _ _ => .isTrue trivial
  | .mainQueue _ => .isTrue trivial

/-- Where every row agrees, a model that is not closed may take the place of one with the same
path. -/
theorem Controller.Agrees.setModel {i : Nat} {old new : TorrentModel} (h : c.Agrees)
    (hold : c.models[i]? = some old) (hpath : new.filepath = old.filepath)
    (hopen : new.torrentstate ≠ .closed) : (c.setModel i new).Agrees := by
  intro row j model hmodel
  obtain ⟨model₀, hmodel₀, rfl⟩ := model?_setModel hmodel
  obtain ⟨hagrees, hidle⟩ := h row j model₀ hmodel₀
  by_cases hji : j = i
  · subst hji
    obtain rfl := Option.some.inj ((model?_eq_some.mp hmodel₀).2.symm.trans hold)
    rw [if_pos rfl]
    exact ⟨fun path hstart => (hagrees path hstart).trans hpath.symm, fun hclosed =>
      absurd hclosed hopen⟩
  · rw [if_neg hji]
    exact ⟨hagrees, hidle⟩

theorem lastStart_searching (row row' i : Nat) (model : TorrentModel) :
    (c.searching row i model).lastStart row' =
      if row = row' then some model.filepath else c.lastStart row' := by
  unfold Controller.lastStart Controller.searching
  dsimp only
  rw [List.foldl_append]
  rfl

theorem agrees_toggleOn {env : Env} {row i : Nat} {model : TorrentModel} (h : c.Agrees)
    (hmodel : c.model? row = some (i, model)) (hx : toggleOn env row i model c = .ok u c') :
    c'.Agrees := by
  obtain ⟨block, m, -, -, rfl⟩ := toggleOn_ok hx
  intro row' j model' hmodel'
  have hset : ((c.enable (c.cellForRow row) false).setModel i
      { model with torrentstate := .searching }).model? row' = some (j, model') := hmodel'
  obtain ⟨old, hold, rfl⟩ := model?_setModel hset
  replace hold : c.model? row' = some (j, old) := hold
  obtain ⟨hagrees, hidle⟩ := h row' j old hold
  -- the tap changes the state of a model, not its path
  have hfilepath : (if j = i then { model with torrentstate := TorrentState.searching }
      else old).filepath = old.filepath := by
    split
    · rename_i hji
      subst hji
      rw [Option.some.inj ((model?_eq_some.mp hmodel).2.symm.trans (model?_eq_some.mp hold).2)]
    · rfl
  constructor
  · intro path hpath
    replace hpath : (c.searching row i model).lastStart row' = some path := hpath
    rw [lastStart_searching] at hpath
    rw [hfilepath]
    -- the tapped row has just been started with its own path
    by_cases hrow : row = row'
    · subst hrow
      rw [if_pos rfl] at hpath
      obtain ⟨rfl, rfl⟩ : i = j ∧ model = old := by
        simpa using Option.some.inj (hmodel.symm.trans hold)
      exact (Option.some.inj hpath).symm
    · rw [if_neg hrow] at hpath
      exact hagrees path hpath
  · intro hclosed
    have hji : j ≠ i := by
      rintro rfl
      rw [if_pos rfl] at hclosed
      cases hclosed
    have hrow : row' ≠ row := by
      rintro rfl
      exact hji (Prod.mk.inj (Option.some.inj (hold.symm.trans hmodel))).1
    rw [if_neg hji] at hclosed
    rw [running_store, if_neg hrow]
    exact hidle hclosed

/-- A tap that closes a row ends its run and lets the other rows alone. -/
theorem toggleOff_stops {env : Env} {row i : Nat} {model : TorrentModel}
    (hx : toggleOff env row i model c = .ok u c') :
    ¬ c'.running row ∧ (∀ row', row' ≠ row → (c'.running row' ↔ c.running row')) ∧
      c'.starts = c.starts ∧ (∀ row', c'.model? row' = (c.closing i model).model? row') ∧
      c'.torrentmodels = c.torrentmodels ∧ c'.cellForRow = c.cellForRow ∧
      c'.startButtonEnabled = c.startButtonEnabled := by
  rcases toggleOff_ok hx with ⟨hnone, rfl⟩ | ⟨s, m, hs, hcancel, rfl⟩
  · refine ⟨?_, fun _ _ => Iff.rfl, rfl, fun _ => rfl, rfl, rfl, rfl⟩
    rintro ⟨s, hs, -⟩
    rw [Option.mem_def] at hs
    exact absurd (hs.symm.trans hnone) (by simp)
  · refine ⟨?_, fun row' hrow => ?_, rfl, fun _ => rfl, rfl, rfl, rfl⟩
    · rw [running_store, if_pos rfl, not_not]
      exact live_cancel hcancel
    · rw [running_store, if_neg hrow]
      exact Iff.rfl

theorem agrees_toggleOff {env : Env} {row i : Nat} {model : TorrentModel} (h : c.Agrees)
    (hnodup : c.torrentmodels.Nodup) (hmodel : c.model? row = some (i, model))
    (hx : toggleOff env row i model c = .ok u c') : c'.Agrees := by
  obtain ⟨hstopped, hothers, hstarts, hmodels, -⟩ := toggleOff_stops hx
  have hlast : ∀ row', c'.lastStart row' = c.lastStart row' := fun row' => by
    rw [Controller.lastStart, Controller.lastStart, hstarts]
  intro row' j model' hmodel'
  rw [hmodels] at hmodel'
  rw [hlast]
  rcases model?_setModel_row hnodup hmodel hmodel' with ⟨rfl, rfl⟩ | ⟨hrow, hold⟩
  · -- the tapped row keeps its path, and its run has ended
    exact ⟨(h row' i model hmodel).1, fun _ => hstopped⟩
  · obtain ⟨hagrees, hidle⟩ := h row' j model' hold
    refine ⟨hagrees, fun hclosed => ?_⟩
    rw [hothers row' hrow]
    exact hidle hclosed

/-- What the agreement needs of a list: no two rows have the same model. -/
structure Controller.Keeps (c : Controller) : Prop where
  nodup : c.torrentmodels.Nodup
  agrees : c.Agrees

theorem keeps_mainQueue {visible : Bool} (h : c.Keeps) (hx : runViewQueue visible c = .ok u c') :
    c'.Keeps := by
  rcases runViewQueue_ok hx with ⟨-, rfl⟩ | ⟨b, status, rest, -, ⟨-, rfl⟩ | ⟨model, hmodel, rfl⟩⟩
  · exact h
  · exact ⟨h.nodup, h.agrees⟩
  · exact ⟨h.nodup, h.agrees.setModel hmodel (model.shows_filepath visible status)
      (model.shows_ne_closed visible status)⟩

theorem keeps_streamer {row : Nat} {e : Delivery} (h : c.Keeps)
    (hx : viewStep (.streamer row e) c = .ok u c') : c'.Keeps := by
  rw [viewStep, view_get_bind] at hx
  cases hs : c.torrentsessions row with
  | none =>
      rw [hs] at hx
      cases hx
      exact h
  | some s =>
      rw [hs] at hx
      obtain ⟨m, hstep, rfl⟩ := send_ok hx
      refine ⟨h.nodup, fun row' i model hmodel => ?_⟩
      obtain ⟨hagrees, hidle⟩ := h.agrees row' i model hmodel
      refine ⟨hagrees, fun hclosed => ?_⟩
      rw [running_store]
      split
      · rename_i hrow
        subst hrow
        rw [not_not]
        refine live_delivery ?_ hstep
        by_contra hlive
        exact hidle hclosed ⟨s, hs, hlive⟩
      · exact hidle hclosed

theorem keeps_load {contents : Except Text (List (Text × Int))} {cellForRow : Nat → Nat}
    (hkeeps : LoadKeeps c (.load contents cellForRow))
    (hx : loadTorrents contents cellForRow c = .ok u c') : c'.Keeps := by
  rcases loadTorrents_ok hx with ⟨error, rfl, rfl⟩ | ⟨files, rfl, rfl⟩
  · refine ⟨List.nodup_nil, fun row i model hmodel => ?_⟩
    obtain ⟨hrow, -⟩ := model?_eq_some.mp hmodel
    simp [Controller.emptied] at hrow
  · refine ⟨List.nodup_range', fun row i model hmodel => ?_⟩
    obtain ⟨file, hfile, hpath, -⟩ := model?_list hmodel
    obtain ⟨hlast, hidle⟩ := hkeeps (file, row) (List.mem_zipIdx_iff_getElem?.mpr hfile)
    exact ⟨fun path hstart => (hlast path hstart).trans hpath.symm, fun _ => hidle⟩

/-- **The step lemma.** -/
theorem keeps_step {e : ViewEvent} (h : c.Keeps) (hkeeps : LoadKeeps c e)
    (hx : viewStep e c = .ok u c') : c'.Keeps := by
  cases e with
  | tap env row =>
      rcases tap_ok hx with ⟨-, rfl⟩ | ⟨-, i, model, hmodel, ⟨-, hon⟩ | ⟨-, hoff⟩⟩
      · exact h
      · have hagrees := agrees_toggleOn h.agrees hmodel hon
        obtain ⟨block, m, -, -, rfl⟩ := toggleOn_ok hon
        exact ⟨h.nodup, hagrees⟩
      · obtain ⟨-, -, -, -, hrows, -⟩ := toggleOff_stops hoff
        exact ⟨by rw [hrows]; exact h.nodup, agrees_toggleOff h.agrees h.nodup hmodel hoff⟩
  | load contents cellForRow => exact keeps_load hkeeps hx
  | reuse cellForRow =>
      cases hx
      exact ⟨h.nodup, h.agrees⟩
  | streamer row e => exact keeps_streamer h hx
  | mainQueue visible => exact keeps_mainQueue h hx

/-- **Row and streamer agree**, in every history of taps, loads, progress blocks and deliveries
to the streamers in which every load meets the condition. -/
theorem agrees_of_loadKeeps {sandboxdocpath : Text} {es : List ViewEvent}
    (hkeeps : EachBefore viewStep LoadKeeps es { sandboxdocpath := sandboxdocpath })
    (hrun : each viewStep es { sandboxdocpath := sandboxdocpath } = .ok () c) : c.Agrees := by
  have hinit : ({ sandboxdocpath := sandboxdocpath } : Controller).Keeps := by
    refine ⟨List.nodup_nil, fun row i model hmodel => ?_⟩
    obtain ⟨hrow, -⟩ := model?_eq_some.mp hmodel
    simp at hrow
  exact (run_of_eachBefore (fun _ _ _ h hk hx => keeps_step h hk hx) hinit hkeeps hrun).agrees

/-- The state after a history of the list. -/
def listAfter (es : List ViewEvent) : Option Controller :=
  match each viewStep es {} with
  | .ok () c => some c
  | .error _ _ => none

theorem run_of_listAfter {es : List ViewEvent} (h : listAfter es = some c) :
    each viewStep es {} = .ok () c := by
  unfold listAfter at h
  split at h
  · rename_i c₁ hrun
    rw [hrun, Option.some.inj h]
  · cases h

/-- A film is started from the only row and shows its progress. The file is taken out of the
folder, which is loaded, and another file is put in before the next load. -/
def otherFile : List ViewEvent :=
  let env := Env.calm (Metadata.films 1 40 []) fun _ => false
  [.load (.ok [("b.torrent".toList, 40)]) id, .tap env 0,
    .streamer 0 ⟨.alertsLoop [(env, .pieceFinished 0 0)], trivial⟩,
    .streamer 0 ⟨.mainQueue, trivial⟩, .streamer 0 ⟨.mainQueue, trivial⟩, .mainQueue true,
    .load (.ok []) id, .load (.ok [("a.torrent".toList, 12)]) id]

/-- The row of the new file finds the streamer that downloads the film. -/
theorem not_agrees_otherFile :
    ¬ ∀ (es : List ViewEvent) (c : Controller), each viewStep es {} = .ok () c → c.Agrees := by
  intro hall
  have hfinal : (listAfter otherFile).map (fun c =>
      (c.lastStart 0, (c.model? 0).map fun im => im.2.filepath)) =
      some (some "/torrents/b.torrent".toList, some "/torrents/a.torrent".toList) := by
    decide +kernel
  obtain ⟨c, hc, hmap⟩ := Option.map_eq_some_iff.mp hfinal
  rw [Prod.mk.injEq] at hmap
  obtain ⟨hstart, hmodel⟩ := hmap
  obtain ⟨⟨i, model⟩, hmodel, hpath⟩ := Option.map_eq_some_iff.mp hmodel
  obtain ⟨hagrees, -⟩ := hall otherFile c (run_of_listAfter hc) 0 i model hmodel
  have heq := hagrees _ hstart
  rw [show model.filepath = _ from hpath] at heq
  exact absurd heq (by decide)

/-- A film is started, shows its progress and is cancelled. The folder is loaded empty, and then
with the file of the film and one behind it. -/
theorem agrees_fileBehind :
    let env := Env.calm (Metadata.films 1 40 []) fun _ => false
    let es : List ViewEvent := [.load (.ok [("b.torrent".toList, 40)]) id, .tap env 0,
      .streamer 0 ⟨.alertsLoop [(env, .pieceFinished 0 0)], trivial⟩,
      .streamer 0 ⟨.mainQueue, trivial⟩, .streamer 0 ⟨.mainQueue, trivial⟩, .mainQueue true,
      .tap env 0, .load (.ok []) id,
      .load (.ok [("b.torrent".toList, 40), ("c.torrent".toList, 12)]) id]
    ∃ c, each viewStep es {} = .ok () c ∧ c.torrentmodels.length = 2 ∧ c.Agrees := by
  intro env es
  have hfinal : (listAfter es).map (·.torrentmodels.length) = some 2 := by decide +kernel
  obtain ⟨c, hc, hlength⟩ := Option.map_eq_some_iff.mp hfinal
  have hrun := run_of_listAfter hc
  refine ⟨c, hrun, hlength, ?_⟩
  exact @agrees_of_loadKeeps c [] es (by decide +kernel) hrun

end BtDownloader
