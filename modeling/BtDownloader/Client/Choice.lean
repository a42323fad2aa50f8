import BtDownloader.Client.ChosenPieces
import BtDownloader.Client.Moves

set_option autoImplicit false

/-! # One chosen file for a run

The file of a run is looked up by every metadata alert, by every round of a fast-forward and by
`processTorrent`. Each lookup chooses anew, unless `selectedFileIndex` holds an index: a metadata
alert asks the user while `shouldUserSelectFiles` is set, once, and takes the largest file from
then on.

* `oneFile_of_startsAnew`: in which runs all lookups take one file.
-/

namespace BtDownloader

open Program

variable {m m' : Machine} {env : Env} {h : Nat} {u : Unit}

/-! ## The file of a run -/

/-- The block with which the user selects a file, in a run that was started with one. -/
def Event.callback? : Event → Option SelectionBlock
  | .startMulti _ _ _ _ _ callback => some callback
  | _ => none

/-- What a start is given to read. -/
def Event.reads? : Event → Option (Env × Text)
  | .start env arg _ _ _ => some (env, arg)
  | .startMulti env arg _ _ _ _ => some (env, arg)
  | _ => none

/-- The folder that a start downloads to. -/
def Event.folder (e : Event) : Option Text :=
  e.reads?.bind fun (env, arg) => (env.addParams? arg none).map (·.savePath)

/-- The file that a run is to take: what the user answers, or the default. -/
def Event.fileOf (e : Event) (ti : TorrentInfo) : Int :=
  match e.callback? with
  | some callback => callback.answer ti.fileNames
  | none => defaultFileIndex ti

/-- The file is the user's answer, or no file is larger. -/
def Event.Takes (e : Event) (ti : TorrentInfo) (f : Int) : Prop :=
  match e.callback? with
  | some callback => f = callback.answer ti.fileNames
  | none => ∀ fe ∈ ti.fileAt f, ∀ fe' ∈ ti.files, fe'.size ≤ fe.size

/-- The call of the block with which the user selects. -/
def Effect.asks : Effect → Bool
  | .calledSelection _ _ => true
  | _ => false

/-- What the effect does with the file of torrent `h`, it does with file `f`: it gives this file
alone the top priority, maps a range through it or reports its path in `folder`. -/
def Effect.KeepsTo (h : Nat) (ti : TorrentInfo) (f : Int) (folder : Option Text) : Effect → Prop
  | .command h' (.prioritizeFiles ps) => h' = h → ps = onlyFile ti.numFiles f
  | .mappedRange h' i => h' = h → i = f
  | .dispatched (.readyToPlay p) => ∃ fe, ti.fileAt f = some fe ∧
      p = folder.map (appendPathComponent · fe.path)
  | _ => True

/-- **One file is chosen.** `L` is what the streamer did in the run that `e` started, `seen` the
run's torrent `h` as it was last in the session. -/
structure OneFile (e : Event) (h : Nat) (seen : Option Torrent) (L : List Effect) : Prop where
  once : L.countP Effect.asks ≤ 1
  own : ∀ b names, .calledSelection b names ∈ L → ∃ callback, e.callback? = some callback ∧
    callback.block = b
  file : ∀ t md, seen = some t → t.info = some md → ∃ f : Int, 0 ≤ f ∧ f < md.val.numFiles ∧
    e.Takes md.val f ∧ ∀ e' ∈ L, e'.KeepsTo h md.val f e.folder

/-- The block answers with the index of one of the names it is given. -/
def SelectionBlock.Answers (callback : SelectionBlock) : Prop :=
  ∀ names, names ≠ [] → 0 ≤ callback.answer names ∧ callback.answer names < names.length

def Event.Answers (e : Event) : Prop :=
  ∀ callback, e.callback? = some callback → callback.Answers

/-- The run's file is one of the files of the torrent. -/
theorem Event.fileAt_fileOf {e : Event} (hanswers : e.Answers) (md : Metadata) :
    ∃ fe, md.val.fileAt (e.fileOf md.val) = some fe := by
  unfold Event.fileOf
  cases hcallback : e.callback? with
  | none =>
      obtain ⟨fe, hfe, -⟩ := fileAt_defaultFileIndex md
      exact ⟨fe, hfe⟩
  | some callback =>
      have hlength : md.val.fileNames.length = md.val.numFiles := by
        simp [TorrentInfo.fileNames, TorrentInfo.numFiles]
      have hpos := md.numFiles_pos
      obtain ⟨hnonneg, hlt⟩ := hanswers callback hcallback md.val.fileNames
        (List.ne_nil_of_length_pos (by omega))
      have hbound : (callback.answer md.val.fileNames).toNat < md.val.files.length := by
        unfold TorrentInfo.numFiles at hlength
        omega
      refine ⟨md.val.files[(callback.answer md.val.fileNames).toNat], ?_⟩
      rw [TorrentInfo.fileAt_eq_some]
      exact ⟨hnonneg, List.getElem?_eq_getElem hbound⟩

theorem Event.takes_fileOf (e : Event) (md : Metadata) : e.Takes md.val (e.fileOf md.val) := by
  unfold Event.Takes Event.fileOf
  cases e.callback? with
  | some callback => rfl
  | none =>
      intro fe hfe fe' hfe'
      obtain ⟨fe₀, hfe₀, hle⟩ := fileAt_defaultFileIndex md
      obtain rfl : fe₀ = fe := Option.some.inj (hfe₀.symm.trans hfe)
      exact hle fe' hfe'

theorem Event.fileOf_ne {e : Event} (hanswers : e.Answers) (md : Metadata) :
    e.fileOf md.val ≠ -1 := by
  intro hnone
  obtain ⟨fe, hfe⟩ := e.fileAt_fileOf hanswers md
  rw [hnone, TorrentInfo.fileAt_eq_some] at hfe
  omega

/-! ## Steps that look no file up -/

/-- The effect has nothing to do with the file of torrent `h`. -/
def Effect.IsBeside (h : Nat) : Effect → Prop
  | .calledSelection _ _ => False
  | .cancelled => False
  | .mappedRange h' _ => h' ≠ h
  | .command h' (.prioritizeFiles _) => h' ≠ h
  | .dispatched (.readyToPlay _) => False
  | _ => True

theorem Effect.IsBeside.keepsTo {e : Effect} (he : e.IsBeside h) (ti : TorrentInfo) (f : Int)
    (folder : Option Text) : e.KeepsTo h ti f folder := by
  unfold KeepsTo
  split
  · exact fun heq => absurd heq he
  · exact fun heq => absurd heq he
  · exact he.elim
  · trivial

theorem Effect.IsBeside.asks {e : Effect} (he : e.IsBeside h) : e.asks = false := by
  cases e <;> first | rfl | exact he.elim

theorem Effect.IsTeardown.beside {e : Effect} (he : e.IsTeardown) : e.IsBeside h := by
  unfold IsTeardown at he
  unfold IsBeside
  split <;> simp_all [TorrentCommand.isPriority]

theorem failureEffects_beside (failure : Option BlockId) (error : NSError) :
    ∀ e ∈ failureEffects failure error, e.IsBeside h := by
  cases failure <;> simp [failureEffects, Effect.IsBeside]

theorem TorrentCommand.SparesFiles.beside {c : TorrentCommand} (hc : c.SparesFiles) (h' : Nat) :
    (Effect.command h' c).IsBeside h := by
  cases c with
  | prioritizeFiles => exact hc.elim
  | _ => trivial

/-- Commands leave the metadata alone. -/
theorem info_of_sent {h' : Nat} {cs : List TorrentCommand} {s : Streamer} {t' : Torrent}
    (ht' : (s.sent env h' cs).session.find? h = some t') :
    ∃ t, s.session.find? h = some t ∧ t.info = t'.info := by
  rw [find?_sent] at ht'
  split at ht'
  · rename_i hh
    obtain ⟨t, ht, rfl⟩ := Option.map_eq_some_iff.mp ht'
    exact ⟨t, by rw [hh, ht], (Torrent.applyAll_info _ t cs).symm⟩
  · exact ⟨t', ht', rfl⟩

/-- From `s` to `s'` nothing is done with the file of torrent `h`. -/
structure Streamer.Beside (h : Nat) (s s' : Streamer) : Prop where
  selectionBlock : s'.selectionBlock = s.selectionBlock
  torrents : ∀ t', s'.session.find? h = some t' → s'.savePath = s.savePath ∧
    ∃ t, s.session.find? h = some t ∧ t.info = t'.info
  effects : ∃ es, s'.effects = s.effects ++ es ∧ ∀ e ∈ es, e.IsBeside h

namespace Streamer.Beside

variable {s s' s'' : Streamer} {es : List Effect}

theorem trans (hs : s.Beside h s') (hs' : s'.Beside h s'') : s.Beside h s'' where
  selectionBlock := hs'.selectionBlock.trans hs.selectionBlock
  torrents t'' ht'' := by
    obtain ⟨hpath', t', ht', hinfo'⟩ := hs'.torrents t'' ht''
    obtain ⟨hpath, t, ht, hinfo⟩ := hs.torrents t' ht'
    exact ⟨hpath'.trans hpath, t, ht, hinfo.trans hinfo'⟩
  effects := by
    obtain ⟨es, heffects, hes⟩ := hs.effects
    obtain ⟨es', heffects', hes'⟩ := hs'.effects
    refine ⟨es ++ es', by rw [heffects', heffects, List.append_assoc], fun e he => ?_⟩
    exact (List.mem_append.mp he).elim (hes e) (hes' e)

theorem of_effects (hblock : s'.selectionBlock = s.selectionBlock)
    (hpath : s'.savePath = s.savePath) (hsession : s'.session.torrents = s.session.torrents)
    (heffects : s'.effects = s.effects ++ es) (hes : ∀ e ∈ es, e.IsBeside h) : s.Beside h s' := by
  refine ⟨hblock, fun t' ht' => ⟨hpath, t', ?_, rfl⟩, es, heffects, hes⟩
  rwa [Session.find?, ← hsession]

theorem of_eq (hblock : s'.selectionBlock = s.selectionBlock)
    (hpath : s'.savePath = s.savePath) (hsession : s'.session.torrents = s.session.torrents)
    (heffects : s'.effects = s.effects) : s.Beside h s' :=
  of_effects hblock hpath hsession (by rw [heffects, List.append_nil])
    (fun _ he => absurd he List.not_mem_nil)

theorem refl (s : Streamer) : s.Beside h s := of_eq rfl rfl rfl rfl

theorem sent (env : Env) (h' : Nat) {cs : List TorrentCommand} (s : Streamer)
    (hcs : ∀ e ∈ cs.map (Effect.command h'), e.IsBeside h) : s.Beside h (s.sent env h' cs) :=
  ⟨rfl, fun _ ht' => ⟨rfl, info_of_sent ht'⟩, cs.map (.command h'), rfl, hcs⟩

theorem spared (env : Env) (h' : Nat) {cs : List TorrentCommand} (s : Streamer)
    (hcs : ∀ c ∈ cs, c.SparesFiles) : s.Beside h (s.sent env h' cs) := by
  refine sent env h' s fun e he => ?_
  obtain ⟨c, hc, rfl⟩ := List.mem_map.mp he
  exact (hcs c hc).beside h'

end Streamer.Beside

theorem beside_prioritizeNextPieces {h' : Nat} (hx : prioritizeNextPieces env h' m = .ok u m') :
    m.streamer.Beside h m'.streamer := by
  obtain ⟨next, t, ps, -, -, -, -, -, hs'⟩ := prioritizeNextPieces_ok hx
  have hsent := Streamer.Beside.spared (h := h) env h' m.streamer (sparesFiles_window
    (windowFrom next m.globals.minPieces.toNat t.numPieces) ps)
  rw [hs']
  exact hsent.trans (.of_eq rfl rfl rfl rfl)

theorem beside_progress (st : TorrentStatus) (told : PTTorrentStatus) (s : Streamer) :
    s.Beside h (s.progress st told) :=
  .of_effects rfl rfl rfl rfl (by simp [Effect.IsBeside])

theorem find?_of_removeTorrent {session : Session} {h' : Nat} {t : Torrent}
    (ht : (session.removeTorrent h').find? h = some t) : session.find? h = some t := by
  have hne : h ≠ h' := by
    have hmem := Session.find?_mem ht
    have hhandle := Session.find?_handle ht
    have hkept : t.handle ≠ h' := by simpa using (List.mem_filter.mp hmem).2
    rwa [← hhandle]
  rw [← ht, Session.find?, Session.find?, Session.removeTorrent, List.find?_filter]
  congr 1
  funext t'
  by_cases hh : t'.handle = h
  · simp [hh, hne]
  · simp [hh]

theorem beside_finish (h' : Nat) (s : Streamer) : s.Beside h (s.finish h') := by
  refine ⟨rfl, fun t' ht' => ⟨rfl, ?_⟩, [.dispatched .progress,
    .dispatched (.networkActivityIndicator false), .command h' (.pause true), .removed h',
    .finished h'], by simp [Streamer.finish, Streamer.progress, Streamer.dispatch],
    by simp [Effect.IsBeside]⟩
  have hremoved : (s.session.removeTorrent h').find? h = some t' := ht'
  exact ⟨t', find?_of_removeTorrent hremoved, rfl⟩

theorem beside_resumeDataReadyAlertWithData {h' : Nat}
    (hx : resumeDataReadyAlertWithData h' m = .ok u m') : m.streamer.Beside h m'.streamer := by
  obtain ⟨-, hs'⟩ := resumeDataReadyAlertWithData_ok hx
  refine ⟨by rw [hs']; rfl, fun t' ht' => ?_, _, by rw [hs']; rfl, fun e he => ?_⟩
  · rw [hs'] at ht'
    cases ht'
  · rcases List.mem_append.mp he with he | he
    · obtain ⟨t, -, rfl⟩ := List.mem_map.mp he
      trivial
    · rw [List.mem_singleton.mp he]
      trivial

theorem beside_runMainQueue (hx : runMainQueue m = .ok u m') :
    m.streamer.Beside h m'.streamer := by
  obtain ⟨-, ⟨-, hs'⟩ | ⟨b, rest, -, hs'⟩⟩ := runMainQueue_ok hx
  · rw [hs']
    exact .refl _
  · rw [hs']
    refine Streamer.Beside.of_effects rfl rfl rfl rfl fun e he => ?_
    cases b with
    | progress =>
        obtain ⟨b', -, rfl⟩ := List.mem_map.mp he
        trivial
    | readyToPlay path =>
        obtain ⟨b', -, rfl⟩ := List.mem_map.mp he
        trivial
    | networkActivityIndicator visible => cases he

/-! ## Where the choice stands -/

section Choice

variable {e : Event} {left i : Int} {md? : Option Metadata} {md : Metadata} {L es : List Effect}
  {g g' : Globals} {block? : Option SelectionBlock}

/-- A lookup asks nothing, or it calls the block of the run, which was not called before. -/
def Event.MayAsk (e : Event) (L es : List Effect) : Prop :=
  es = [] ∨ L.countP Effect.asks = 0 ∧ ∃ callback names, e.callback? = some callback ∧
    es = [.calledSelection callback.block names]

/-- What was done so far is done with the run's file, whatever torrent `h` turns out to be: `md?`
is its metadata, once it is there. -/
structure Kept (e : Event) (h : Nat) (md? : Option Metadata) (L : List Effect) : Prop where
  once : L.countP Effect.asks ≤ 1
  own : ∀ b names, .calledSelection b names ∈ L → ∃ callback, e.callback? = some callback ∧
    callback.block = b
  uses : ∀ md : Metadata, (∀ md', md? = some md' → md' = md) →
    ∀ e' ∈ L, e'.KeepsTo h md.val (e.fileOf md.val) e.folder

theorem Kept.nil (e : Event) (h : Nat) (md? : Option Metadata) : Kept e h md? [] :=
  ⟨Nat.zero_le 1, by simp, by simp⟩

theorem Kept.asks (hkept : Kept e h md? L) (hasks : e.MayAsk L es) : Kept e h md? (L ++ es) := by
  rcases hasks with rfl | ⟨hnone, callback, names, hcallback, rfl⟩
  · rwa [List.append_nil]
  · refine ⟨?_, fun b names' hmem => ?_, fun md hmd e' he' => ?_⟩
    · rw [List.countP_append, hnone]
      exact Nat.le_refl 1
    · rcases List.mem_append.mp hmem with hmem | hmem
      · exact hkept.own b names' hmem
      · cases List.mem_singleton.mp hmem
        exact ⟨callback, hcallback, rfl⟩
    · rcases List.mem_append.mp he' with he' | he'
      · exact hkept.uses md hmd e' he'
      · rw [List.mem_singleton.mp he']
        trivial

theorem countP_asks_eq_zero (hes : ∀ e' ∈ es, e'.asks = false) : es.countP Effect.asks = 0 := by
  rw [List.countP_eq_zero]
  intro e' he'
  rw [hes e' he']
  exact Bool.false_ne_true

theorem Kept.append (hkept : Kept e h md? L) (hasks : ∀ e' ∈ es, e'.asks = false)
    (huses : ∀ md : Metadata, (∀ md', md? = some md' → md' = md) →
      ∀ e' ∈ es, e'.KeepsTo h md.val (e.fileOf md.val) e.folder) : Kept e h md? (L ++ es) := by
  refine ⟨?_, fun b names hmem => ?_, fun md hmd e' he' => ?_⟩
  · rw [List.countP_append, countP_asks_eq_zero hasks]
    exact hkept.once
  · rcases List.mem_append.mp hmem with hmem | hmem
    · exact hkept.own b names hmem
    · cases hasks _ hmem
  · exact (List.mem_append.mp he').elim (hkept.uses md hmd e') (huses md hmd e')

theorem Kept.beside (hkept : Kept e h md? L) (hes : ∀ e' ∈ es, e'.IsBeside h) :
    Kept e h md? (L ++ es) :=
  hkept.append (fun e' he' => (hes e' he').asks) fun md _ e' he' =>
    (hes e' he').keepsTo md.val (e.fileOf md.val) e.folder

/-- The metadata of the torrent arrives. -/
theorem Kept.known (hkept : Kept e h none L) (md : Metadata) : Kept e h (some md) L :=
  ⟨hkept.once, hkept.own, fun md' _ => hkept.uses md' (by simp)⟩

/-- **Where the choice stands**, given what was done so far and the index `left` that was left
over when the run began. While the user is to be asked, nothing is selected. An index that is
selected is that of the run's file, or the one left over: then no metadata alert has handled a
torrent with several files. -/
structure Standing (e : Event) (h : Nat) (left : Int) (md? : Option Metadata) (L : List Effect)
    (g : Globals) (block? : Option SelectionBlock) : Prop where
  flag : g.shouldUserSelectFiles = true → g.selectedFileIndex = -1 ∧ L.countP Effect.asks = 0 ∧
    ∃ callback, e.callback? = some callback ∧ block? = some callback
  unset : g.selectedFileIndex = -1 → g.shouldUserSelectFiles = true ∨ e.callback? = none
  set : g.selectedFileIndex ≠ -1 →
    (∃ md, md? = some md ∧ g.selectedFileIndex = e.fileOf md.val) ∨
    e.callback? = none ∧ g.selectedFileIndex = left ∧
      ∀ ps, .command h (.prioritizeFiles ps) ∈ L → ∃ md, md? = some md ∧ md.val.numFiles ≤ 1

theorem Standing.beside (hstanding : Standing e h left md? L g block?)
    (hes : ∀ e' ∈ es, e'.IsBeside h) (hflag : g'.shouldUserSelectFiles = g.shouldUserSelectFiles)
    (hselected : g'.selectedFileIndex = g.selectedFileIndex) :
    Standing e h left md? (L ++ es) g' block? := by
  constructor
  · rw [hflag, hselected]
    intro htrue
    obtain ⟨hnone, hasked, hblock⟩ := hstanding.flag htrue
    refine ⟨hnone, ?_, hblock⟩
    rw [List.countP_append, hasked, countP_asks_eq_zero fun e' he' => (hes e' he').asks]
  · rw [hflag, hselected]
    exact hstanding.unset
  · rw [hselected]
    intro hne
    refine (hstanding.set hne).imp_right fun ⟨hplain, hleft, hsingle⟩ => ⟨hplain, hleft, ?_⟩
    intro ps hmem
    rcases List.mem_append.mp hmem with hmem | hmem
    · exact hsingle ps hmem
    · exact absurd rfl (hes _ hmem)

theorem Standing.known (hstanding : Standing e h left none L g block?) (md : Metadata) :
    Standing e h left (some md) L g block? := by
  refine ⟨hstanding.flag, hstanding.unset, fun hne => Or.inr ?_⟩
  rcases hstanding.set hne with ⟨md', hnone, -⟩ | ⟨hplain, hleft, hsingle⟩
  · cases hnone
  · refine ⟨hplain, hleft, fun ps hmem => ?_⟩
    obtain ⟨md', hnone, -⟩ := hsingle ps hmem
    cases hnone

/-- The shared variables after a lookup: nobody is to be asked, and the run's file is selected,
unless the torrent has no other. -/
def Globals.Chose (g : Globals) (e : Event) (left : Int) (md : Metadata) : Prop :=
  g.shouldUserSelectFiles = false ∧ (g.selectedFileIndex = e.fileOf md.val ∨
    e.callback? = none ∧ md.val.numFiles ≤ 1 ∧
      (g.selectedFileIndex = -1 ∨ g.selectedFileIndex = left))

theorem Globals.Chose.standing (hchose : g.Chose e left md) (hanswers : e.Answers)
    (L : List Effect) (block? : Option SelectionBlock) :
    Standing e h left (some md) L g block? := by
  obtain ⟨hflag, hselected⟩ := hchose
  constructor
  · intro htrue
    rw [hflag] at htrue
    cases htrue
  · intro hnone
    rcases hselected with hfile | ⟨hplain, -, -⟩
    · exact absurd (hfile.symm.trans hnone) (e.fileOf_ne hanswers md)
    · exact Or.inr hplain
  · intro hne
    rcases hselected with hfile | ⟨hplain, hsingle, hnone | hleft⟩
    · exact Or.inl ⟨md, rfl, hfile⟩
    · exact absurd hnone hne
    · exact Or.inr ⟨hplain, hleft, fun _ _ => ⟨md, rfl, hsingle⟩⟩

/-- An index that is selected already, of a torrent with one file only. -/
theorem Standing.only (hstanding : Standing e h left (some md) L g block?)
    (hflag : g.shouldUserSelectFiles = false) (hsingle : md.val.numFiles ≤ 1) :
    g.Chose e left md := by
  refine ⟨hflag, ?_⟩
  by_cases hnone : g.selectedFileIndex = -1
  · rcases hstanding.unset hnone with htrue | hplain
    · rw [hflag] at htrue
      cases htrue
    · exact Or.inr ⟨hplain, hsingle, Or.inl hnone⟩
  · rcases hstanding.set hnone with ⟨md', hmd', hfile⟩ | ⟨hplain, hleft, -⟩
    · obtain rfl := Option.some.inj hmd'
      exact Or.inl hfile
    · exact Or.inr ⟨hplain, hsingle, Or.inr hleft⟩

/-- **The choice of a metadata alert.** It takes the run's file while the user is to be asked, and
where the run's file is the default. -/
theorem Standing.selects (hstanding : Standing e h left (some md) L g block?)
    (honce : g.shouldUserSelectFiles = true ∨ e.fileOf md.val = defaultFileIndex md.val)
    (hselects : Selects g block? (some md.val) i g' es) :
    i = e.fileOf md.val ∧ e.MayAsk L es ∧ g'.Chose e left md := by
  cases hselects with
  | earlier hflag hselected => exact absurd (hstanding.flag hflag).1 hselected
  -- the user is asked: the answer is the run's file
  | asked ti block hflag hselected hti hblock =>
      obtain ⟨-, hasked, callback, hcallback, hown⟩ := hstanding.flag hflag
      obtain rfl := Option.some.inj hti
      obtain rfl : block = callback := Option.some.inj (hblock.symm.trans hown)
      have hfile : block.answer md.val.fileNames = e.fileOf md.val := by
        rw [Event.fileOf, hcallback]
      exact ⟨hfile, Or.inr ⟨hasked, block, _, hcallback, rfl⟩, rfl, Or.inl hfile⟩
  | largest ti hflag hti hfiles =>
      obtain rfl := Option.some.inj hti
      have hfile : largestFileIndex md.val = e.fileOf md.val := by
        rcases honce with htrue | hdefault
        · rw [hflag] at htrue
          cases htrue
        · rw [hdefault, defaultFileIndex, if_pos hfiles]
      exact ⟨hfile, Or.inl rfl, hflag, Or.inl hfile⟩
  -- one file: it is taken without being stored
  | only ti hflag hti hfiles =>
      obtain rfl := Option.some.inj hti
      have hfile : 0 = e.fileOf md.val := by
        rcases honce with htrue | hdefault
        · rw [hflag] at htrue
          cases htrue
        · rw [hdefault, defaultFileIndex, if_neg hfiles]
      exact ⟨hfile, Or.inl rfl, hstanding.only hflag (Nat.le_of_not_lt hfiles)⟩

/-- Nothing was left over, or a metadata alert has overwritten it. -/
def Overwritten (h : Nat) (left : Int) (md : Metadata) (L : List Effect) : Prop :=
  left = -1 ∨ (∃ ps, .command h (.prioritizeFiles ps) ∈ L) ∧ 1 < md.val.numFiles

/-- **The choice of a fast-forward and of `processTorrent`.** -/
theorem Standing.chooses (hstanding : Standing e h left (some md) L g block?)
    (hoverwritten : Overwritten h left md L)
    (hchooses : Chooses g block? (some md.val) i g' es) :
    i = e.fileOf md.val ∧ e.MayAsk L es ∧ g'.Chose e left md := by
  cases hchooses with
  | current hselected =>
      have hflag : g.shouldUserSelectFiles = false := by
        rw [← Bool.not_eq_true]
        exact fun htrue => hselected (hstanding.flag htrue).1
      rcases hstanding.set hselected with ⟨md', hmd', hfile⟩ | ⟨-, hleft, hsingle⟩
      · obtain rfl := Option.some.inj hmd'
        exact ⟨hfile, Or.inl rfl, hflag, Or.inl hfile⟩
      · rcases hoverwritten with hnone | ⟨⟨ps, hmem⟩, hseveral⟩
        · exact absurd (hleft.trans hnone) hselected
        · obtain ⟨md', hmd', hone⟩ := hsingle ps hmem
          obtain rfl := Option.some.inj hmd'
          omega
  | selects hselected hselects =>
      refine hstanding.selects ?_ hselects
      refine (hstanding.unset hselected).imp_right fun hplain => ?_
      rw [Event.fileOf, hplain]

end Choice

/-! ## The states of a run -/

section States

variable {e : Event} {m₀ : Machine} {md? : Option Metadata} {md : Metadata}
  {L es used : List Effect}

/-- A state of the run before anything has cancelled it. -/
structure Running (e : Event) (h : Nat) (m₀ : Machine) (md? : Option Metadata)
    (L : List Effect) (m : Machine) : Prop where
  effects : m.streamer.effects = m₀.streamer.effects ++ L
  goes : .cancelled ∉ L
  torrents : ∀ t, m.streamer.session.find? h = some t →
    md? = t.info ∧ m.streamer.savePath = e.folder
  kept : Kept e h md? L
  standing : Standing e h m₀.globals.selectedFileIndex md? L m.globals m.streamer.selectionBlock

/-- A state of the run after something has cancelled it. -/
structure Stopped (e : Event) (h : Nat) (m₀ : Machine) (md? : Option Metadata) (m : Machine) :
    Prop where
  effects : ∃ L₁ L₂, m.streamer.effects = m₀.streamer.effects ++ (L₁ ++ .cancelled :: L₂) ∧
    .cancelled ∉ L₁ ∧ Kept e h md? L₁
  torrents : ∀ t, m.streamer.session.find? h = some t → md? = t.info

def Stands (e : Event) (h : Nat) (m₀ : Machine) (md? : Option Metadata) (m : Machine) : Prop :=
  (∃ L, Running e h m₀ md? L m) ∨ Stopped e h m₀ md? m

theorem Running.beside (hrun : Running e h m₀ md? L m)
    (hflag : m'.globals.shouldUserSelectFiles = m.globals.shouldUserSelectFiles)
    (hselected : m'.globals.selectedFileIndex = m.globals.selectedFileIndex)
    (hs : m.streamer.Beside h m'.streamer) : ∃ L', Running e h m₀ md? L' m' := by
  obtain ⟨es, heffects, hes⟩ := hs.effects
  refine ⟨L ++ es, ?_, ?_, fun t' ht' => ?_, hrun.kept.beside hes, ?_⟩
  · rw [heffects, hrun.effects, List.append_assoc]
  · intro hmem
    exact (List.mem_append.mp hmem).elim hrun.goes fun hmem => hes _ hmem
  · obtain ⟨hpath, t, ht, hinfo⟩ := hs.torrents t' ht'
    obtain ⟨hmd, hfolder⟩ := hrun.torrents t ht
    exact ⟨hmd.trans hinfo, hpath.trans hfolder⟩
  · rw [hs.selectionBlock]
    exact hrun.standing.beside hes hflag hselected

theorem Stopped.cancelled (hstopped : Stopped e h m₀ md? m) : .cancelled ∈ m₀.did m := by
  obtain ⟨L₁, L₂, heffects, -⟩ := hstopped.effects
  rw [Machine.did, heffects, List.drop_left]
  simp

theorem Stopped.beside (hstopped : Stopped e h m₀ md? m) (hs : m.streamer.Beside h m'.streamer) :
    Stopped e h m₀ md? m' := by
  obtain ⟨⟨L₁, L₂, hL, hgoes, hkept⟩, htorrents⟩ := hstopped
  obtain ⟨es, heffects, -⟩ := hs.effects
  refine ⟨⟨L₁, L₂ ++ es, ?_, hgoes, hkept⟩, fun t' ht' => ?_⟩
  · rw [heffects, hL]
    simp
  · obtain ⟨-, t, ht, hinfo⟩ := hs.torrents t' ht'
    exact (htorrents t ht).trans hinfo

theorem Stands.beside (hstands : Stands e h m₀ md? m)
    (hflag : m'.globals.shouldUserSelectFiles = m.globals.shouldUserSelectFiles)
    (hselected : m'.globals.selectedFileIndex = m.globals.selectedFileIndex)
    (hs : m.streamer.Beside h m'.streamer) : Stands e h m₀ md? m' := by
  rcases hstands with ⟨L, hrun⟩ | hstopped
  · exact Or.inl (hrun.beside hflag hselected hs)
  · exact Or.inr (hstopped.beside hs)

/-- A lookup of the run's file. -/
theorem Running.looks (hrun : Running e h m₀ (some md) L m) (hanswers : e.Answers)
    (hchose : m'.globals.Chose e m₀.globals.selectedFileIndex md) (hasks : e.MayAsk L es)
    (heffects : m'.streamer.effects = m.streamer.effects ++ (es ++ used))
    (hused : ∀ e' ∈ used, e'.asks = false ∧ e' ≠ .cancelled ∧
      e'.KeepsTo h md.val (e.fileOf md.val) e.folder)
    (htorrents : ∀ t', m'.streamer.session.find? h = some t' →
      m'.streamer.savePath = m.streamer.savePath ∧
        ∃ t, m.streamer.session.find? h = some t ∧ t.info = t'.info) :
    ∃ L', Running e h m₀ (some md) L' m' := by
  -- asking for a file does not cancel
  have hgoes : .cancelled ∉ es := by
    rcases hasks with rfl | ⟨-, callback, names, -, rfl⟩
    · simp
    · simp
  refine ⟨L ++ es ++ used, ?_, fun hmem => ?_, fun t' ht' => ?_, ?_,
    hchose.standing hanswers _ _⟩
  · rw [heffects, hrun.effects]
    simp only [List.append_assoc]
  · rcases List.mem_append.mp hmem with hmem | hmem
    · exact (List.mem_append.mp hmem).elim hrun.goes hgoes
    · exact (hused _ hmem).2.1 rfl
  · obtain ⟨hpath, t, ht, hinfo⟩ := htorrents t' ht'
    obtain ⟨hmd, hfolder⟩ := hrun.torrents t ht
    exact ⟨hmd.trans hinfo, hpath.trans hfolder⟩
  · refine (hrun.kept.asks hasks).append (fun e' he' => (hused e' he').1) fun md' hmd' e' he' => ?_
    rw [← hmd' md rfl]
    exact (hused e' he').2.2

theorem info_of_pause {session session' : Session} {t' : Torrent}
    (htorrents : session'.torrents = session.torrents.map Torrent.pause)
    (ht' : session'.find? h = some t') : ∃ t, session.find? h = some t ∧ t.info = t'.info := by
  rw [Session.find?, htorrents, List.find?_map] at ht'
  obtain ⟨t, ht, rfl⟩ := Option.map_eq_some_iff.mp ht'
  exact ⟨t, ht, rfl⟩

/-- A cancel ends the run. -/
theorem stopped_of_cancel {deleteData : Bool}
    (heffects : m.streamer.effects = m₀.streamer.effects ++ L) (hgoes : .cancelled ∉ L)
    (hkept : Kept e h md? L) (htorrents : ∀ t, m.streamer.session.find? h = some t → md? = t.info)
    (hx : cancelStreamingAndDeleteData env deleteData m = .ok u m') : Stopped e h m₀ md? m' := by
  -- whether or not the data is deleted, the cancel only tears down and brings no metadata
  have htorn : ∃ es, (∀ e ∈ es, e.IsTeardown) ∧ m'.streamer.effects =
      m.streamer.effects ++ (es ++ [.cancelled, .dispatched (.networkActivityIndicator false)]) ∧
      ∀ t', m'.streamer.session.find? h = some t' →
        ∃ t, m.streamer.session.find? h = some t ∧ t.info = t'.info := by
    cases deleteData with
    | true =>
        obtain ⟨-, es, hes, hs'⟩ := cancel_deleting_ok hx
        refine ⟨es, hes, ?_, fun t' ht' => ?_⟩
        · rw [hs']
          simp [Streamer.deleted, Streamer.cancelled, Streamer.dispatch, Streamer.log,
            Streamer.reset, Streamer.withSession]
        · rw [hs'] at ht'
          cases ht'
    | false =>
        obtain ⟨-, session, es, hes, hs', -, hpaused, -⟩ := cancel_keeping_ok hx
        refine ⟨es, hes, ?_, fun t' ht' => ?_⟩
        · rw [hs']
          simp [Streamer.cancelled, Streamer.dispatch, Streamer.log, Streamer.reset,
            Streamer.withSession]
        · rw [hs'] at ht'
          exact info_of_pause hpaused ht'
  obtain ⟨es, hes, heffects', htorrents'⟩ := htorn
  have hbeside : ∀ e' ∈ es, e'.IsBeside h := fun e' he' => (hes e' he').beside
  refine ⟨⟨L ++ es, [.dispatched (.networkActivityIndicator false)], ?_, fun hmem => ?_,
    hkept.beside hbeside⟩, fun t' ht' => ?_⟩
  · rw [heffects', heffects]
    simp
  · exact (List.mem_append.mp hmem).elim hgoes fun hmem => hbeside _ hmem
  · obtain ⟨t, ht, hinfo⟩ := htorrents' t' ht'
    exact (htorrents t ht).trans hinfo

theorem Running.cancel {deleteData : Bool} (hrun : Running e h m₀ md? L m)
    (hx : cancelStreamingAndDeleteData env deleteData m = .ok u m') : Stopped e h m₀ md? m' :=
  stopped_of_cancel hrun.effects hrun.goes hrun.kept (fun t ht => (hrun.torrents t ht).1) hx

/-! ## The lookups -/

/-- A choice for torrent `h'` that nobody is asked for and that is not written down. -/
def Machine.SparesChoice (h' : Nat) (m : Machine) : Prop :=
  m.globals.shouldUserSelectFiles = false ∧ ∀ md ∈ m.metadata? h', md.val.numFiles ≤ 1

theorem Selects.spared {g g' : Globals} {block? : Option SelectionBlock} {i : Int}
    (hselects : Selects g block? (some md.val) i g' es)
    (hflag : g.shouldUserSelectFiles = false) (hsingle : md.val.numFiles ≤ 1) :
    g' = g ∧ es = [] := by
  cases hselects with
  | earlier htrue => rw [hflag] at htrue; cases htrue
  | asked ti block htrue => rw [hflag] at htrue; cases htrue
  | largest ti _ hti hfiles =>
      obtain rfl := Option.some.inj hti
      omega
  | only => exact ⟨rfl, rfl⟩

theorem metadata?_of_find? {h' : Nat} {t : Torrent} (ht : m.streamer.session.find? h' = some t)
    (hmd : t.info = some md) : m.metadata? h' = some md := by
  rw [Machine.metadata?, ht]
  exact hmd

theorem Effect.beside_of_ne {h' : Nat} (hne : h' ≠ h) (c : TorrentCommand) :
    (Effect.command h' c).IsBeside h := by
  cases c with
  | prioritizeFiles => exact hne
  | _ => trivial

/-- A metadata alert of torrent `h'` takes the run's file, or leaves the choice alone. -/
def Machine.ChoosesOnce (e : Event) (h h' : Nat) (m : Machine) : Prop :=
  if h' = h then m.globals.shouldUserSelectFiles = true ∨
    ∀ md ∈ m.metadata? h, e.fileOf md.val = defaultFileIndex md.val
  else m.SparesChoice h'

theorem Running.selectFile {h' : Nat} (hrun : Running e h m₀ md? L m) (hanswers : e.Answers)
    (honce : m.ChoosesOnce e h h') (hx : selectFile env h' m = .ok u m') :
    ∃ L', Running e h m₀ md? L' m' := by
  obtain ⟨t, md, i, g, es, fe, ht, hmd, hselects, hfe, hg, hs'⟩ := selectFile_ok hx
  have hmetadata := metadata?_of_find? ht hmd
  unfold Machine.ChoosesOnce at honce
  split at honce
  · rename_i hh
    subst hh
    -- the own torrent: the file that is chosen alone gets the top priority
    obtain rfl : md? = some md := (hrun.torrents t ht).1.trans hmd
    obtain ⟨rfl, hasks, hchose⟩ :=
      hrun.standing.selects (honce.imp_right fun hdefault => hdefault md hmetadata) hselects
    have hchose' : m'.globals.Chose e m₀.globals.selectedFileIndex md := by
      rw [hg]
      exact hchose
    have heffects := congrArg Streamer.effects hs'
    refine hrun.looks hanswers hchose' hasks (heffects.trans (List.append_assoc _ _ _))
      (fun e' he' => ?_) fun t' ht' => ?_
    · obtain ⟨c, hc, rfl⟩ := List.mem_map.mp he'
      rcases List.mem_cons.mp hc with rfl | hc
      · exact ⟨rfl, by simp, fun _ => rfl⟩
      · have hbeside : (Effect.command h' c).IsBeside h' :=
          (sparesFiles_select _ _ c hc).beside h'
        exact ⟨rfl, by simp, hbeside.keepsTo _ _ _⟩
    · rw [hs'] at ht' ⊢
      exact ⟨rfl, info_of_sent (s := m.streamer.log es) ht'⟩
  · rename_i hne
    -- another torrent: its commands are not about this choice
    obtain ⟨rfl, rfl⟩ := hselects.spared honce.1 (honce.2 md hmetadata)
    refine hrun.beside (by rw [hg]) (by rw [hg]) ?_
    rw [hs', log_nil]
    refine Streamer.Beside.trans (Streamer.Beside.sent env h' m.streamer fun e' he' => ?_)
      (.of_eq rfl rfl rfl rfl)
    obtain ⟨c, -, rfl⟩ := List.mem_map.mp he'
    exact Effect.beside_of_ne hne c

/-- The condition of `processTorrent`: the torrent is the run's and nothing left over is read, or
it is another one, is not reported and leaves the choice alone. -/
def Machine.ReportsOwn (m m₀ : Machine) (h h' : Nat) : Prop :=
  m.streamer.streaming = false →
    if h' = h then ∀ md ∈ m.metadata? h,
      Overwritten h m₀.globals.selectedFileIndex md (m₀.did m)
    else m.streamer.readyToPlayBlock = none ∧
      (m.globals.selectedFileIndex = -1 → m.SparesChoice h')

theorem Running.did (hrun : Running e h m₀ md? L m) : m₀.did m = L := by
  rw [Machine.did, hrun.effects, List.drop_left]

theorem Running.processTorrent {h' : Nat} (hrun : Running e h m₀ md? L m) (hanswers : e.Answers)
    (hreports : m.ReportsOwn m₀ h h') (hx : processTorrent env h' m = .ok u m') :
    ∃ L', Running e h m₀ md? L' m' := by
  rcases processTorrent_ok hx with ⟨-, rfl⟩ |
    ⟨hstreaming, t, md, fe, i, es, ht, hmd, hfe, hchooses, hs'⟩
  · exact ⟨L, hrun⟩
  have hmetadata := metadata?_of_find? ht hmd
  replace hreports := hreports hstreaming
  split at hreports
  · rename_i hh
    subst hh
    -- the own torrent: the path that is noted is that of the chosen file
    obtain ⟨hmd?, hfolder⟩ := hrun.torrents t ht
    obtain rfl : md? = some md := hmd?.trans hmd
    have hoverwritten := hreports md hmetadata
    rw [hrun.did] at hoverwritten
    obtain ⟨rfl, hasks, hchose⟩ := hrun.standing.chooses hoverwritten hchooses
    dsimp only at hs'
    split at hs'
    · have heffects := congrArg Streamer.effects hs'
      refine hrun.looks hanswers hchose hasks (heffects.trans (List.append_assoc _ _ _))
        (fun e' he' => ?_) fun t' ht' => ?_
      · rw [List.mem_singleton.mp he']
        exact ⟨rfl, by simp, fe, hfe, by rw [← hfolder]; rfl⟩
      · rw [hs'] at ht' ⊢
        exact ⟨rfl, t', ht', rfl⟩
    · have heffects : m'.streamer.effects = m.streamer.effects ++ (es ++ []) := by
        rw [hs', List.append_nil]
        rfl
      refine hrun.looks hanswers hchose hasks heffects (by simp) fun t' ht' => ?_
      · rw [hs'] at ht' ⊢
        exact ⟨rfl, t', ht', rfl⟩
  · obtain ⟨hmute, hspares⟩ := hreports
    -- another torrent: the condition says that it neither chooses nor reports
    have hsame : m'.globals = m.globals ∧ es = [] := by
      generalize m'.globals = g' at hchooses
      cases hchooses with
      | current => exact ⟨rfl, rfl⟩
      | selects hselected hselects =>
          obtain ⟨hflag, hsingle⟩ := hspares hselected
          exact hselects.spared hflag (hsingle md hmetadata)
    obtain ⟨hg, rfl⟩ := hsame
    rw [hmute] at hs'
    refine hrun.beside (by rw [hg]) (by rw [hg]) ?_
    rw [hs', log_nil]
    exact .of_eq rfl rfl rfl rfl

/-- The condition of a round of a fast-forward for torrent `h'`. -/
def Machine.SeeksOwn (m m₀ : Machine) (h h' : Nat) : Prop :=
  if h' = h then ∀ md ∈ m.metadata? h, Overwritten h m₀.globals.selectedFileIndex md (m₀.did m)
  else m.globals.selectedFileIndex = -1 → m.SparesChoice h'

theorem Running.fastForwardTorrent {location length h' : Nat} {r : Bool}
    (hrun : Running e h m₀ md? L m) (hanswers : e.Answers) (hseeks : m.SeeksOwn m₀ h h')
    (hx : fastForwardTorrent env location length h' m = .ok r m') :
    ∃ L', Running e h m₀ md? L' m' := by
  obtain ⟨t, md, i, g, es, last, ht, hmd, hchooses, -, hcases⟩ := fastForwardTorrent_ok hx
  dsimp only at hcases
  generalize (md.val.mapFile i.toNat location length).piece = first at hcases
  have hmetadata := metadata?_of_find? ht hmd
  -- up to the question whether the range is there
  have hsought : ∀ m₁ : Machine, m₁.globals = g →
      m₁.streamer.selectionBlock = m.streamer.selectionBlock →
      m₁.streamer.savePath = m.streamer.savePath → m₁.streamer.session = m.streamer.session →
      m₁.streamer.effects = m.streamer.effects ++ (es ++ [.mappedRange h' i]) →
      ∃ L', Running e h m₀ md? L' m₁ := by
    intro m₁ hg hblock hpath hsession heffects
    unfold Machine.SeeksOwn at hseeks
    split at hseeks
    · rename_i hh
      subst hh
      obtain rfl : md? = some md := (hrun.torrents t ht).1.trans hmd
      have hoverwritten := hseeks md hmetadata
      rw [hrun.did] at hoverwritten
      obtain ⟨rfl, hasks, hchose⟩ := hrun.standing.chooses hoverwritten hchooses
      rw [← hg] at hchose
      refine hrun.looks hanswers hchose hasks heffects (fun e' he' => ?_) fun t' ht' => ?_
      · rw [List.mem_singleton.mp he']
        exact ⟨rfl, by simp, fun _ => rfl⟩
      · rw [hsession] at ht'
        exact ⟨hpath, t', ht', rfl⟩
    · rename_i hne
      have hsame : g = m.globals ∧ es = [] := by
        cases hchooses with
        | current => exact ⟨rfl, rfl⟩
        | selects hselected hselects =>
            obtain ⟨hflag, hsingle⟩ := hseeks hselected
            exact hselects.spared hflag (hsingle md hmetadata)
      obtain ⟨rfl, rfl⟩ := hsame
      refine hrun.beside (by rw [hg]) (by rw [hg]) (.of_effects hblock hpath (by rw [hsession])
        heffects fun e' he' => ?_)
      rw [List.nil_append, List.mem_singleton] at he'
      rw [he']
      exact hne
  rcases hcases with ⟨-, hg', hs'⟩ | ⟨-, m₁, hg₁, hs₁, hnext⟩
  · exact hsought m' hg' (by rw [hs']; rfl) (by rw [hs']; rfl) (by rw [hs']; rfl) (by rw [hs']; rfl)
  · obtain ⟨L₁, hrun₁⟩ := hsought m₁ hg₁ (by rw [hs₁]; rfl) (by rw [hs₁]; rfl) (by rw [hs₁]; rfl)
      (by rw [hs₁]; rfl)
    have hg' : m'.globals = m₁.globals := by
      obtain ⟨-, -, -, -, -, -, -, hg', -⟩ := prioritizeNextPieces_ok hnext
      exact hg'
    exact hrun₁.beside (by rw [hg']) (by rw [hg']) (beside_prioritizeNextPieces hnext)

/-! ## The alerts and the moves -/

theorem Machine.ChoosesOnce.congr {h' : Nat} (honce : m.ChoosesOnce e h h')
    (hg : m'.globals = m.globals) (hsession : m'.streamer.session = m.streamer.session) :
    m'.ChoosesOnce e h h' := by
  unfold Machine.ChoosesOnce Machine.SparesChoice Machine.metadata? at *
  rwa [hg, hsession]

theorem Running.metadataReceivedAlert {h' : Nat} (hrun : Running e h m₀ md? L m)
    (hanswers : e.Answers) (hchooses : env.LowSpace h' ∨ m.ChoosesOnce e h h')
    (hx : metadataReceivedAlert env h' m = .ok u m') : Stands e h m₀ md? m' := by
  obtain ⟨-, -, ⟨-, m₁, hg₁, hs₁, hcancel⟩ | ⟨hroom, m₁, hg₁, hs₁, hselect⟩⟩ :=
    metadataReceivedAlert_ok hx
  · have hbeside : m.streamer.Beside h m₁.streamer := by
      rw [hs₁]
      exact .of_effects rfl rfl rfl rfl (failureEffects_beside _ _)
    obtain ⟨L₁, hrun₁⟩ := hrun.beside (by rw [hg₁]) (by rw [hg₁]) hbeside
    exact Or.inr (hrun₁.cancel hcancel)
  · have hbeside : m.streamer.Beside h m₁.streamer := by
      rw [hs₁]
      exact .of_eq rfl rfl rfl rfl
    obtain ⟨L₁, hrun₁⟩ := hrun.beside (by rw [hg₁]) (by rw [hg₁]) hbeside
    have honce := (hchooses.resolve_left hroom).congr hg₁ (by rw [hs₁]; rfl)
    exact Or.inl (hrun₁.selectFile hanswers honce hselect)

theorem Running.pieceFinishedAlert {h' : Nat} (hrun : Running e h m₀ md? L m)
    (hanswers : e.Answers) (hchooses : m.allPresent env h' = true → m.globals.minPieces = 0 →
      env.LowSpace h' ∨ m.ChoosesOnce e h h')
    (hx : pieceFinishedAlert env h' m = .ok u m') : Stands e h m₀ md? m' := by
  obtain ⟨-, n, m₁, hg₁, hs₁, hcases⟩ := pieceFinishedAlert_ok hx
  have hbeside : m.streamer.Beside h m₁.streamer := by
    rw [hs₁]
    exact beside_progress _ _ _
  obtain ⟨L₁, hrun₁⟩ := hrun.beside (by rw [hg₁]) (by rw [hg₁]) hbeside
  -- only with all pieces there and MIN_PIECES 0 is a file chosen
  rcases hcases with ⟨-, hg', hs'⟩ | ⟨hall, m₂, hnext, hagain⟩
  · refine Or.inl (hrun₁.beside (by rw [hg']) (by rw [hg']) ?_)
    rw [hs']
    exact .refl _
  · have hstands₂ : Stands e h m₀ md? m₂ := by
      rcases hagain with ⟨-, hg₂, hs₂⟩ | ⟨hzero, m₃, hg₃, hs₃, hmeta⟩
      · refine Or.inl (hrun₁.beside (by rw [hg₂]) (by rw [hg₂]) ?_)
        rw [hs₂]
        exact .refl _
      · have hsession : m₃.streamer.session = m.streamer.session := by
          rw [hs₃, hs₁]
          rfl
        have honce := (hchooses hall hzero).imp_right fun honce =>
          honce.congr (hg₃.trans hg₁) hsession
        obtain ⟨L₃, hrun₃⟩ : ∃ L₃, Running e h m₀ md? L₃ m₃ :=
          hrun₁.beside (by rw [hg₃]) (by rw [hg₃]) (by rw [hs₃]; exact .refl _)
        exact hrun₃.metadataReceivedAlert hanswers honce hmeta
    have hg' : m'.globals = m₂.globals := by
      obtain ⟨-, -, -, -, -, -, -, hg', -⟩ := prioritizeNextPieces_ok hnext
      exact hg'
    exact hstands₂.beside (by rw [hg']) (by rw [hg']) (beside_prioritizeNextPieces hnext)

/-- The condition of the rounds of a fast-forward. -/
def RoundsSeekOwn (m₀ : Machine) (h : Nat) (env : Env) (location length : Nat) :
    List Nat → Machine → Prop
  | [], _ => True
  | h' :: hs, m => m.SeeksOwn m₀ h h' ∧
      match fastForwardTorrent env location length h' m with
      | .ok false m' => RoundsSeekOwn m₀ h env location length hs m'
      | _ => True

theorem Running.fastForwardLoop {location length : Nat} {hs : List Nat} {r : Bool}
    (hrun : Running e h m₀ md? L m) (hanswers : e.Answers)
    (hseeks : RoundsSeekOwn m₀ h env location length hs m)
    (hx : fastForwardLoop env location length hs m = .ok r m') :
    ∃ L', Running e h m₀ md? L' m' := by
  induction hs generalizing m L with
  | nil =>
      obtain ⟨-, rfl⟩ := pure_eq_ok.mp hx
      exact ⟨L, hrun⟩
  | cons h' hs ih =>
      obtain ⟨there, m₁, hround, hrest⟩ := bind_eq_ok.mp hx
      obtain ⟨hown, hseeks⟩ := hseeks
      obtain ⟨L₁, hrun₁⟩ := hrun.fastForwardTorrent hanswers hown hround
      rw [hround] at hseeks
      cases there with
      | true =>
          obtain ⟨-, rfl⟩ := pure_eq_ok.mp hrest
          exact ⟨L₁, hrun₁⟩
      | false => exact ih hrun₁ hseeks hrest

/-- **The condition of a move.** A metadata alert that finds room takes the run's file, or
leaves the choice alone; so does a piece-finished alert where it handles the metadata again. A
torrent that finishes and the rounds of a fast-forward read nothing that was left over, and make
no choice for another torrent. -/
def Move.KeepsChoice (e : Event) (m₀ : Machine) (h : Nat) (m : Machine) : Move → Prop
  | .alert env (.metadataReceived h') =>
      m.streamer.session.canDeliver (.metadataReceived h') = true →
        env.LowSpace h' ∨ m.ChoosesOnce e h h'
  | .alert env (.pieceFinished h' piece) =>
      m.streamer.session.canDeliver (.pieceFinished h' piece) = true →
        m.allPresent env h' = true → m.globals.minPieces = 0 →
          env.LowSpace h' ∨ m.ChoosesOnce e h h'
  | .alert _ (.torrentFinished h') =>
      m.streamer.session.canDeliver (.torrentFinished h') = true → m.ReportsOwn m₀ h h'
  | .fastForward env location length =>
      RoundsSeekOwn m₀ h env location length (m.streamer.session.torrents.map (·.handle)) m
  | _ => True

theorem Running.dispatchAlert {a : Alert} (hrun : Running e h m₀ md? L m) (hanswers : e.Answers)
    (hc : (Move.alert env a).KeepsChoice e m₀ h m) (hx : dispatchAlert env a m = .ok u m') :
    Stands e h m₀ md? m' := by
  rw [dispatchAlert_apply] at hx
  split at hx
  swap
  · cases hx
    exact Or.inl ⟨L, hrun⟩
  rename_i hcan
  let m₁ : Machine := { m with streamer := m.streamer.delivers a }
  have hx₁ : handleAlert env a m₁ = .ok u m' := hx
  obtain ⟨L₁, hrun₁⟩ : ∃ L₁, Running e h m₀ md? L₁ m₁ :=
    hrun.beside rfl rfl (.of_eq rfl rfl rfl rfl)
  cases a with
  | metadataReceived h' => exact hrun₁.metadataReceivedAlert hanswers (hc hcan) hx₁
  | pieceFinished h' piece => exact hrun₁.pieceFinishedAlert hanswers (hc hcan) hx₁
  | torrentFinished h' =>
      obtain ⟨-, m₂, hprocess, hg', hs'⟩ := torrentFinishedAlert_ok hx₁
      obtain ⟨L₂, hrun₂⟩ := hrun₁.processTorrent hanswers (hc hcan) hprocess
      refine Or.inl (hrun₂.beside (by rw [hg']) (by rw [hg']) ?_)
      rw [hs']
      exact beside_finish h' _
  | saveResumeData h' =>
      obtain ⟨st, m₂, hstatus, hsave⟩ := bind_eq_ok.mp hx₁
      obtain ⟨-, -, rfl⟩ := statusOf_eq_ok.mp hstatus
      have hg' := (resumeDataReadyAlertWithData_ok hsave).1
      exact Or.inl (hrun₁.beside (by rw [hg']) (by rw [hg'])
        (beside_resumeDataReadyAlertWithData hsave))

theorem Stands.moved {seen : Option Torrent} (hstands : Stands e h m₀ (seen.bind (·.info)) m) :
    Stands e h m₀ (((m.streamer.session.find? h).or seen).bind (·.info)) m := by
  have htorrents : ∀ t, m.streamer.session.find? h = some t → seen.bind (·.info) = t.info := by
    rcases hstands with ⟨L, hrun⟩ | hstopped
    · exact fun t ht => (hrun.torrents t ht).1
    · exact hstopped.torrents
  cases ht : m.streamer.session.find? h with
  | none => rwa [Option.none_or]
  | some t =>
      rw [Option.some_or, Option.bind_some, ← htorrents t ht]
      exact hstands

/-- The metadata of a torrent arrives: from now on the file of the run is known. -/
theorem stands_metadataArrives {seen : Option Torrent} {h' : Nat} {md : Metadata}
    (hrun : Running e h m₀ (seen.bind (·.info)) L m)
    (hx : (Move.metadataArrives h' md).perform m = .ok u m') :
    Stands e h m₀ (((m'.streamer.session.find? h).or seen).bind (·.info)) m' := by
  simp only [Move.perform, modifies_eq_ok] at hx
  have hg : m'.globals = m.globals := by rw [hx]
  have hs' : m'.streamer = m.streamer.mapSession (·.metadataArrives h' md) := by rw [hx]
  rcases m.streamer.session.metadataArrives_cases h' md with hsame | ⟨t, ht, hnone, hnew⟩
  · have hbeside : m.streamer.Beside h m'.streamer := by
      rw [hs']
      exact .of_eq rfl rfl (by rw [Streamer.mapSession, hsame]) rfl
    exact Stands.moved (Or.inl (hrun.beside (by rw [hg]) (by rw [hg]) hbeside))
  -- only the torrent that the metadata is of changes
  have hfind : ∀ h'', m'.streamer.session.find? h'' = if h'' = h' then some (t.withMetadata md)
      else m.streamer.session.find? h'' := by
    intro h''
    have hupdate := Session.find?_update m.streamer.session h' h'' (·.withMetadata md)
      fun _ => rfl
    rw [ht, Option.map_some] at hupdate
    rw [← hupdate, hs', Streamer.mapSession, hnew]
    rfl
  by_cases hh : h = h'
  · -- the own torrent: what was said for any metadata is said for this one
    subst hh
    rw [hfind, if_pos rfl, Option.some_or]
    have hunknown := (hrun.torrents t ht).1
    rw [hnone] at hunknown
    have hkept := hrun.kept
    have hstanding := hrun.standing
    rw [hunknown] at hkept hstanding
    refine Or.inl ⟨L, by rw [hs']; exact hrun.effects, hrun.goes, fun t' ht' => ?_,
      hkept.known md, ?_⟩
    · rw [hfind, if_pos rfl] at ht'
      rw [← Option.some.inj ht', hs']
      exact ⟨rfl, (hrun.torrents t ht).2⟩
    · rw [hg, hs']
      exact hstanding.known md
  -- another torrent's metadata is beside the run
  · have hbeside : m.streamer.Beside h m'.streamer := by
      refine ⟨by rw [hs']; rfl, fun t' ht' => ?_, [], by rw [hs', List.append_nil]; rfl,
        fun _ he => absurd he List.not_mem_nil⟩
      rw [hfind, if_neg hh] at ht'
      exact ⟨by rw [hs']; rfl, t', ht', rfl⟩
    exact Stands.moved (Or.inl (hrun.beside (by rw [hg]) (by rw [hg]) hbeside))

theorem stands_move {seen : Option Torrent} {move : Move}
    (hrun : Running e h m₀ (seen.bind (·.info)) L m) (hanswers : e.Answers)
    (hc : move.KeepsChoice e m₀ h m) (hx : move.perform m = .ok u m') :
    Stands e h m₀ (((m'.streamer.session.find? h).or seen).bind (·.info)) m' := by
  cases move with
  | alert env a => exact (hrun.dispatchAlert hanswers hc hx).moved
  | cancel env deleteData => exact Stands.moved (Or.inr (hrun.cancel hx))
  | fastForward env location length =>
      obtain ⟨r, hloop⟩ := fastForward_ok hx
      exact Stands.moved (Or.inl (hrun.fastForwardLoop hanswers hc hloop))
  | mainQueue =>
      have hg' := (runMainQueue_ok hx).1
      exact Stands.moved (Or.inl (hrun.beside (by rw [hg']) (by rw [hg']) (beside_runMainQueue hx)))
  | metadataArrives h' md => exact stands_metadataArrives hrun hx

/-! ## The start -/

theorem metadata?_cancel (hx : cancelStreamingAndDeleteData env false m = .ok u m') :
    m'.metadata? h = m.metadata? h := by
  obtain ⟨-, session, es, -, hs', -, hpaused, -⟩ := cancel_keeping_ok hx
  have hfind : m'.streamer.session.find? h =
      (m.streamer.session.find? h).map Torrent.pause := by
    rw [hs']
    show session.find? h = _
    rw [Session.find?, hpaused, List.find?_map]
    rfl
  rw [Machine.metadata?, hfind, Machine.metadata?]
  cases m.streamer.session.find? h <;> rfl

theorem metadata?_sent {h' : Nat} {cs : List TorrentCommand} {s : Streamer}
    (hsession : m'.streamer.session = (s.sent env h' cs).session) :
    m'.metadata? h = (s.session.find? h).bind (·.info) := by
  rw [Machine.metadata?, hsession, find?_sent]
  split
  · rename_i hh
    rw [hh]
    cases s.session.find? h' with
    | none => rfl
    | some t => exact Torrent.applyAll_info _ t cs
  · rfl

/-- A start that stops half-way ends the run before a file is chosen. -/
theorem stands_of_stop {m₁ : Machine} {failure : Option BlockId} {error : NSError}
    (heffects : m.streamer.effects = m₀.streamer.effects ++ L) (hgoes : .cancelled ∉ L)
    (hkept : ∀ md?, Kept e h md? L)
    (hstop : m₁.streamer.effects = m.streamer.effects ++ failureEffects failure error)
    (hcancel : cancelStreamingAndDeleteData env false m₁ = .ok u m') :
    Stands e h m₀ (m'.metadata? h) m' := by
  have hbeside := failureEffects_beside (h := h) failure error
  have heffects₁ : m₁.streamer.effects =
      m₀.streamer.effects ++ (L ++ failureEffects failure error) := by
    rw [hstop, heffects, List.append_assoc]
  refine Or.inr (stopped_of_cancel heffects₁ (fun hmem => ?_) ((hkept _).beside hbeside)
    (fun t ht => ?_) hcancel)
  · exact (List.mem_append.mp hmem).elim hgoes fun hmem => hbeside _ hmem
  · rw [metadata?_cancel hcancel, Machine.metadata?, ht]
    rfl

theorem Adds.beside {tp : AddTorrentParams} {s s₁ : Streamer} {h' : Nat}
    (hadds : Adds tp s h' s₁) : s₁.selectionBlock = s.selectionBlock ∧ s₁.savePath = s.savePath ∧
      ∃ e', s₁.effects = s.effects ++ [e'] ∧ (e' = .added h' ∨ e' = .found h') := by
  cases hadds with
  | found t ht => exact ⟨rfl, rfl, _, rfl, Or.inr rfl⟩
  | added order hnew => exact ⟨rfl, rfl, _, rfl, Or.inl rfl⟩

/-- A state of a start before anything has cancelled it. What it has done is within the choice
whatever metadata the torrent has. -/
structure Starting (e : Event) (h : Nat) (m₀ : Machine) (L : List Effect) (m : Machine) : Prop
    where
  effects : m.streamer.effects = m₀.streamer.effects ++ L
  goes : .cancelled ∉ L
  kept : ∀ md?, Kept e h md? L
  folder : m.streamer.savePath = e.folder

theorem Starting.running (hm : Starting e h m₀ L m)
    (hstanding : Standing e h m₀.globals.selectedFileIndex (m.metadata? h) L m.globals
      m.streamer.selectionBlock) : Running e h m₀ (m.metadata? h) L m := by
  refine ⟨hm.effects, hm.goes, fun t ht => ⟨?_, hm.folder⟩, hm.kept _, hstanding⟩
  rw [Machine.metadata?, ht]
  rfl

/-- The torrent is added or found, and gets its commands. -/
theorem Starting.added {tp : AddTorrentParams} {s₁ : Streamer} {h' : Nat}
    (hm : Starting e h m₀ L m) (hadds : Adds tp m.streamer h' s₁)
    (hs' : m'.streamer = s₁.sent env h' addCommands) :
    ∃ es, (∀ x ∈ es, x.IsBeside h) ∧ (.added h' ∈ es ∨ .found h' ∈ es) ∧
      Starting e h m₀ (L ++ es) m' ∧ m'.streamer.selectionBlock = m.streamer.selectionBlock := by
  obtain ⟨hblock, hpath, e', heffects, he'⟩ := hadds.beside
  -- none of the commands to the new torrent is about files
  have hbeside : ∀ x ∈ e' :: addCommands.map (Effect.command h'), x.IsBeside h := by
    intro x hx
    rcases List.mem_cons.mp hx with rfl | hx
    · rcases he' with rfl | rfl <;> trivial
    · obtain ⟨c, hc, rfl⟩ := List.mem_map.mp hx
      exact (sparesFiles_addCommands c hc).beside h'
  refine ⟨e' :: addCommands.map (Effect.command h'), hbeside, ?_, ⟨?_, fun hmem => ?_,
    fun md? => (hm.kept md?).beside hbeside, ?_⟩, ?_⟩
  · rcases he' with rfl | rfl
    · exact Or.inl List.mem_cons_self
    · exact Or.inr List.mem_cons_self
  · rw [hs', Streamer.sent, Streamer.log, Streamer.mapSession]
    dsimp only
    rw [heffects, hm.effects]
    simp
  · exact (List.mem_append.mp hmem).elim hm.goes fun hmem => hbeside _ hmem
  · rw [hs']
    exact hpath.trans hm.folder
  · rw [hs']
    exact hblock

/-- A start that handles the metadata of its torrent chooses the run's file, or stops because
the device has no room. -/
theorem Starting.handled {h' : Nat} (hm : Starting e h m₀ L m) (hanswers : e.Answers)
    (hfile : env.LowSpace h' ∨ ∀ md ∈ m.metadata? h',
      m.globals.Chose e m₀.globals.selectedFileIndex md ∧
        e.fileOf md.val = defaultFileIndex md.val)
    (hown : ∀ es, m'.streamer.effects = m.streamer.effects ++ es → h' = h)
    (hmeta : metadataReceivedAlert env h' m = .ok u m') :
    Stands e h m₀ (m'.metadata? h) m' := by
  obtain ⟨-, -, ⟨-, m₁, -, hs₁, hcancel⟩ | ⟨hroom, m₁, -, hs₁, hselect⟩⟩ :=
    metadataReceivedAlert_ok hmeta
  · exact stands_of_stop hm.effects hm.goes hm.kept (by rw [hs₁]; rfl) hcancel
  obtain ⟨t, md, i, g, es, fe, ht, hmd, -, -, -, hs'⟩ := selectFile_ok hselect
  have heffects : ∃ es', m'.streamer.effects = m.streamer.effects ++ es' := by
    have heffects₁ : m₁.streamer.effects = m.streamer.effects := by
      rw [hs₁]
      rfl
    rw [hs', ← heffects₁]
    exact ⟨_, List.append_assoc _ _ _⟩
  obtain ⟨es', hes'⟩ := heffects
  obtain rfl := hown es' hes'
  -- the torrent has the same metadata before and after
  have hbefore : m.metadata? h' = some md := by
    rw [hs₁] at ht
    have htorrent : m.streamer.session.find? h' = some t := ht
    rw [Machine.metadata?, ← hmd, htorrent]
    rfl
  have hafter : m'.metadata? h' = some md := by
    have hsession := congrArg Streamer.session hs'
    rw [metadata?_sent hsession]
    show (m₁.streamer.session.find? h').bind _ = _
    rw [ht]
    exact hmd
  obtain ⟨hchose, hdefault⟩ := hfile.resolve_left hroom md hbefore
  have hrun : Running e h' m₀ (some md) L m := by
    rw [← hbefore]
    refine hm.running ?_
    rw [hbefore]
    exact hchose.standing hanswers _ _
  have honce : m.ChoosesOnce e h' h' := by
    rw [Machine.ChoosesOnce, if_pos rfl, hbefore]
    refine Or.inr fun md' hmd' => ?_
    rw [← Option.some.inj hmd']
    exact hdefault
  rw [hafter]
  exact hrun.metadataReceivedAlert hanswers (Or.inr honce) hmeta

/-- **From `add_torrent` on** the run stands as the loading left it; a torrent file has its
metadata handled. -/
theorem stands_addAndResume {arg : Text} {failure : Option BlockId} {tp : AddTorrentParams}
    (hm : Starting e h m₀ L m) (hanswers : e.Answers) (hpath : m.streamer.savePath.isSome)
    (hsound : m.streamer.Sound)
    (hlink : isMagnet arg = true → Standing e h m₀.globals.selectedFileIndex none L m.globals
      m.streamer.selectionBlock)
    (hfile : isMagnet arg = false → env.LowSpace (m.streamer.session.handleFor tp) ∨
      ∀ md ∈ m.streamer.session.infoFor tp, m.globals.Chose e m₀.globals.selectedFileIndex md ∧
        e.fileOf md.val = defaultFileIndex md.val)
    (hx : addAndResume env arg failure tp m = .ok u m')
    (hh : ∀ h', .added h' ∈ m₀.did m' ∨ .found h' ∈ m₀.did m' → h' = h) :
    Stands e h m₀ (m'.metadata? h) m' := by
  obtain ⟨h', s₁, m₂, m₃, hadds, -, hg₂, hs₂, hmeta, hg', hs'⟩ := addAndResume_ok hx
  obtain ⟨t, ht, hinfo⟩ := hadds.info hsound hpath
  obtain ⟨es, hbeside, hadded, hm₂, hblock⟩ := hm.added hadds hs₂
  have hresumes : m₃.streamer.Beside h m'.streamer := by
    rw [hs']
    exact .of_effects rfl rfl rfl rfl (by simp [Effect.IsBeside])
  -- what happens after `add_torrent` leaves the choice alone
  suffices hstands : Stands e h m₀ (m₃.metadata? h) m₃ by
    have hmetadata : m'.metadata? h = m₃.metadata? h := by
      rw [Machine.metadata?, hs']
      rfl
    rw [hmetadata]
    exact hstands.beside (by rw [hg']) (by rw [hg']) hresumes
  rcases hmeta with ⟨hmagnet, rfl⟩ | ⟨hlocal, hmeta⟩
  · refine Or.inl ⟨_, hm₂.running ?_⟩
    have hstanding : Standing e h m₀.globals.selectedFileIndex none (L ++ es) m₃.globals
        m₃.streamer.selectionBlock := by
      rw [hblock]
      exact (hlink hmagnet).beside hbeside (by rw [hg₂]) (by rw [hg₂])
    cases m₃.metadata? h with
    | none => exact hstanding
    | some md => exact hstanding.known md
  · refine hm₂.handled hanswers ?_ (fun es' hes' => hh h' ?_) hmeta
    · rw [← hadds.handleFor.1] at hfile
      refine (hfile hlocal).imp_right fun hchose md hmd => ?_
      rw [hg₂]
      refine hchose md ?_
      rw [← hinfo]
      rw [metadata?_sent (congrArg Streamer.session hs₂), ht] at hmd
      exact hmd
    · -- the handle that is added or found is that of the run
      obtain ⟨es'', hes'', -⟩ := hresumes.effects
      have hdid : m₀.did m' = L ++ es ++ es' ++ es'' := by
        rw [Machine.did, hes'', hes', hm₂.effects, List.append_assoc, List.append_assoc,
          List.drop_left, ← List.append_assoc]
      have hmem : ∀ x ∈ es, x ∈ m₀.did m' := fun x hx => by simp [hdid, hx]
      exact hadded.imp (hmem _) (hmem _)

theorem Event.MayAsk.goes (hasks : e.MayAsk L es) : .cancelled ∉ es := by
  rcases hasks with rfl | ⟨-, callback, names, -, rfl⟩
  · simp
  · simp

/-- What the loading of a torrent file chooses: the run's file, whoever is asked. -/
theorem Loads.chose {arg md5 : Text} {tp : AddTorrentParams} {left : Int}
    (hloads : Loads env arg m m' (tp, md5))
    (hstanding : Standing e h left none [] m.globals m.streamer.selectionBlock)
    (hask : m.globals.shouldUserSelectFiles = true ∨ e.callback? = none) :
    (isMagnet arg = true ∧ m' = m) ∨ (isMagnet arg = false ∧ ∃ md es, tp.info = some md ∧
      m'.globals.Chose e left md ∧ e.MayAsk [] es ∧ m'.streamer = m.streamer.log es) := by
  cases hloads with
  | magnet _ hmagnet _ hm => exact Or.inl ⟨hmagnet, hm⟩
  | file md i fe g es hlocal hexists hparse hselects hfe hg hs =>
      have honce : m.globals.shouldUserSelectFiles = true ∨
          e.fileOf md.val = defaultFileIndex md.val := by
        refine hask.imp_right fun hplain => ?_
        rw [Event.fileOf, hplain]
      obtain ⟨-, hasks, hchose⟩ := (hstanding.known md).selects honce hselects
      refine Or.inr ⟨hlocal, md, es, AddTorrentParams.info_eq_some rfl, ?_, hasks, hs⟩
      rw [hg]
      exact hchose

/-- **Where the choice stands after a start.** -/
theorem stands_startStreaming {arg : Text} {progress readyToPlay failure : Option BlockId}
    (hreads : e.reads? = some (env, arg)) (hanswers : e.Answers)
    (heffects : m.streamer.effects = m₀.streamer.effects) (hsound : m.streamer.Sound)
    (hstanding : Standing e h m₀.globals.selectedFileIndex none [] m.globals
      m.streamer.selectionBlock)
    (hask : m.globals.shouldUserSelectFiles = true ∨ e.callback? = none)
    (hfile : isMagnet arg = false → ∀ tp, env.addParams? arg none = some tp →
      env.LowSpace (m.streamer.session.handleFor tp) ∨
        ∀ md ∈ m.streamer.session.infoFor tp, tp.info = some md ∧
          e.fileOf md.val = defaultFileIndex md.val)
    (hx : startStreamingFromFileInDirectory env arg none progress readyToPlay failure m
      = .ok u m') (hh : ∀ h', .added h' ∈ m₀.did m' ∨ .found h' ∈ m₀.did m' → h' = h) :
    Stands e h m₀ (m'.metadata? h) m' := by
  have hnil : m.streamer.effects = m₀.streamer.effects ++ [] := by rw [heffects, List.append_nil]
  rcases startStreamingFromFileInDirectory_ok hx with ⟨-, -, error, hfail⟩ |
    ⟨tp, md5, m₁, hloads, -, error, path?, m₂, -, hs₂, -, hfail⟩ |
    ⟨tp, md5, m₁, hloads, path, m₂, hopened, hg₂, hs₂, hadd⟩
  · obtain ⟨m₁, -, hs₁, hcancel⟩ := failStart_ok hfail
    have hstop := congrArg Streamer.effects hs₁
    exact stands_of_stop hnil List.not_mem_nil (Kept.nil e h) hstop hcancel
  · obtain ⟨m₃, -, hs₃, hcancel⟩ := failStart_ok hfail
    -- before it stops, the start may have asked the user
    obtain ⟨es, hes, hasks⟩ : ∃ es, m₁.streamer.effects = m₀.streamer.effects ++ es ∧
        e.MayAsk [] es := by
      rcases hloads.chose hstanding hask with ⟨-, rfl⟩ | ⟨-, md, es, -, -, hasks, hs₁⟩
      · exact ⟨[], hnil, Or.inl rfl⟩
      · exact ⟨es, by rw [hs₁, ← heffects]; rfl, hasks⟩
    have hstop := congrArg Streamer.effects hs₃
    rw [hs₂] at hstop
    exact stands_of_stop hes hasks.goes (fun md? => (Kept.nil e h md?).asks hasks) hstop hcancel
  · have hsession : m₂.streamer.session = m.streamer.session := by
      rw [hs₂]
      exact hloads.session
    have hsound₂ : m₂.streamer.Sound := hsound.of_session hsession (by rw [hs₂]; rfl)
    have hparams : env.addParams? arg none = some (finalParams env arg path tp) := by
      rw [hloads.addParams?, hopened]
      rfl
    have hfolder : m₂.streamer.savePath = e.folder := by
      rw [hs₂, Event.folder, hreads, Option.bind_some]
      dsimp only
      rw [hparams]
      rfl
    -- a link has chosen nothing yet, a torrent file has
    rcases hloads.chose hstanding hask with ⟨hmagnet, hm₁⟩ |
      ⟨hlocal, md, es, hmd, hchose, hasks, hs₁⟩
    · refine stands_addAndResume (L := []) ⟨?_, List.not_mem_nil, Kept.nil e h, hfolder⟩ hanswers
        (by rw [hs₂]; rfl) hsound₂ (fun _ => ?_) (fun hlocal => ?_) hadd hh
      · rw [hs₂, hm₁]
        exact hnil
      · rw [hg₂, hs₂, hm₁]
        exact hstanding
      · rw [hmagnet] at hlocal
        cases hlocal
    · refine stands_addAndResume (L := es)
        ⟨?_, hasks.goes, fun md? => (Kept.nil e h md?).asks hasks, hfolder⟩ hanswers
        (by rw [hs₂]; rfl) hsound₂ (fun hmagnet => ?_) (fun _ => ?_) hadd hh
      · rw [hs₂, hs₁, ← heffects]
        rfl
      · rw [hlocal] at hmagnet
        cases hmagnet
      · rw [hsession]
        refine (hfile hlocal _ hparams).imp_right fun hinfo md' hmd' => ?_
        obtain ⟨hti, hdefault⟩ := hinfo md' hmd'
        have hsame : (finalParams env arg path tp).info = tp.info := by
          simp [AddTorrentParams.info, finalParams, resumeParams, hlocal]
        obtain rfl := Option.some.inj ((hsame.trans hmd).symm.trans hti)
        rw [hg₂]
        exact ⟨hchose, hdefault⟩

/-- **The condition of a start.** The user's block answers with the index of a name it is given.
A start without such a block finds nobody to be asked, a start with one finds nothing selected.
A torrent file is added or found with its own metadata, and the user answers with its default
file, unless the device has no room. -/
def Event.StartsAnew (e : Event) (m : Machine) : Prop :=
  e.Answers ∧
  (e.callback? = none → m.globals.shouldUserSelectFiles = false) ∧
  (e.callback? ≠ none → m.globals.selectedFileIndex = -1) ∧
  ∀ env arg, e.reads? = some (env, arg) → isMagnet arg = false →
    ∀ tp, env.addParams? arg none = some tp →
      env.LowSpace (m.streamer.session.handleFor tp) ∨
        ∀ md ∈ m.streamer.session.infoFor tp, tp.info = some md ∧
          e.fileOf md.val = defaultFileIndex md.val

theorem stands_start (he : e.IsStart) (hsound : m₀.streamer.Sound) (hanew : e.StartsAnew m₀)
    (hx : step e m₀ = .ok u m)
    (hh : ∀ h', .added h' ∈ m₀.did m ∨ .found h' ∈ m₀.did m → h' = h) :
    Stands e h m₀ (m.metadata? h) m := by
  obtain ⟨hanswers, hplain, hasked, hfile⟩ := hanew
  cases e with
  | start env arg progress readyToPlay failure =>
      have hflag := hplain rfl
      have hstanding : Standing (.start env arg progress readyToPlay failure) h
          m₀.globals.selectedFileIndex none [] m₀.globals m₀.streamer.selectionBlock := by
        refine ⟨fun htrue => ?_, fun _ => Or.inr rfl, fun _ => Or.inr ⟨rfl, rfl, by simp⟩⟩
        rw [hflag] at htrue
        cases htrue
      exact stands_startStreaming rfl hanswers rfl hsound hstanding (Or.inr rfl)
        (hfile env arg rfl) hx hh
  | startMulti env arg progress readyToPlay failure callback =>
      -- the flag is set before anything is read
      have hnone := hasked (by simp [Event.callback?])
      obtain ⟨_, m₁, h₁, hx⟩ := bind_eq_ok.mp hx
      obtain ⟨_, m₂, h₂, hx⟩ := bind_eq_ok.mp hx
      rw [setShouldUserSelectFiles_eq_ok] at h₁
      rw [modifies_eq_ok] at h₂
      have hs₂ : m₂.streamer = { m₀.streamer with selectionBlock := some callback } := by
        rw [h₂, h₁]
      have hg₂ : m₂.globals = { m₀.globals with shouldUserSelectFiles := true } := by
        rw [h₂, h₁]
      have hstanding : Standing (.startMulti env arg progress readyToPlay failure callback) h
          m₀.globals.selectedFileIndex none [] m₂.globals m₂.streamer.selectionBlock := by
        rw [hg₂, hs₂]
        exact ⟨fun _ => ⟨hnone, rfl, callback, rfl, rfl⟩, fun _ => Or.inl rfl,
          fun hne => absurd hnone hne⟩
      have hsession : m₂.streamer.session = m₀.streamer.session := by rw [hs₂]
      refine stands_startStreaming rfl hanswers (by rw [hs₂]) (hsound.of_eq hsession ?_) hstanding
        (Or.inl (by rw [hg₂])) (fun hlocal tp htp => ?_) hx hh
      · rw [hs₂]
      · rw [hsession]
        exact hfile env arg rfl hlocal tp htp
  | cancel | alertsLoop | fastForward | mainQueue | metadataArrives => exact he.elim

end States

/-! ## The runs with one chosen file -/

theorem Kept.oneFile {e : Event} {seen : Option Torrent} {L : List Effect}
    (hkept : Kept e h (seen.bind (·.info)) L) (hanswers : e.Answers) : OneFile e h seen L := by
  refine ⟨hkept.once, hkept.own, fun t md ht hmd => ⟨e.fileOf md.val, ?_⟩⟩
  obtain ⟨fe, hfe⟩ := e.fileAt_fileOf hanswers md
  have hlt := TorrentInfo.lt_numFiles_of_fileAt hfe
  rw [TorrentInfo.fileAt_eq_some] at hfe
  refine ⟨hfe.1, by omega, e.takes_fileOf md, hkept.uses md fun md' hmd' => ?_⟩
  rw [ht, Option.bind_some, hmd] at hmd'
  exact (Option.some.inj hmd').symm

/-- What the streamer did in the run up to the first cancel. -/
def Machine.didBeforeCancel (m₀ m : Machine) : List Effect :=
  (m₀.did m).takeWhile (· ≠ .cancelled)

/-- The condition of a move of a run, which a cancel ends. -/
def ChoosesOwn (e : Event) (m₀ : Machine) (h : Nat) (m : Machine) (move : Move) : Prop :=
  .cancelled ∉ m₀.did m ∧ move.KeepsChoice e m₀ h m

theorem stands_of_since {e : Event} {m₀ : Machine} {seen : Option Torrent} (he : e.IsStart)
    (hsound : m₀.streamer.Sound) (hanew : e.StartsAnew m₀)
    (hm : Since (ChoosesOwn e m₀ h) m₀ e h m seen) : Stands e h m₀ (seen.bind (·.info)) m := by
  induction hm with
  | started hx hh => exact stands_start he hsound hanew hx hh
  | moved hm hc hx ih =>
      rcases ih with ⟨L, hrun⟩ | hstopped
      · exact stands_move hrun hanew.1 hc.2 hx
      · -- nothing moves after a cancel
        exact absurd hstopped.cancelled hc.1

/-- A metadata alert of the run's torrent that finds room gives the priorities to its files. -/
theorem prioritizes_of_running {e : Event} {m₀ : Machine} {md? : Option Metadata} {md : Metadata}
    {L : List Effect} (hrun : Running e h m₀ md? L m) (hanswers : e.Answers)
    (hsound : m.streamer.Sound) (hknows : Knows h md m) (hroom : ¬ env.LowSpace h)
    (hcan : m.streamer.session.canDeliver (.metadataReceived h) = true) :
    ∃ m' ps, dispatchAlert env (.metadataReceived h) m = .ok () m' ∧
      .command h (.prioritizeFiles ps) ∈ m.did m' := by
  let m₁ : Machine := { m with streamer := m.streamer.delivers (.metadataReceived h) }
  have hknows₁ : Knows h md m₁ := hknows
  obtain ⟨t, ht, -⟩ := hknows
  have hpath : m₁.streamer.savePath.isSome := hsound.isSome_savePath ht
  -- if the user is asked, the answer is an index of the torrent's files
  have hanswer : m₁.AnswerExists md.val := by
    intro hflag
    obtain ⟨hselected, -, callback, hcallback, hblock⟩ := hrun.standing.flag hflag
    obtain ⟨fe, hfe⟩ := e.fileAt_fileOf hanswers md
    rw [Event.fileOf, hcallback] at hfe
    refine ⟨callback.answer md.val.fileNames, ?_, by rw [hfe]; rfl⟩
    show m.answer? md.val = _
    rw [Machine.answer?, if_neg (not_not.mpr hselected), hblock]
    rfl
  obtain ⟨_, m', hx⟩ := @returns_metadataReceivedAlert m₁ env h ⟨t, ht⟩ hpath
    fun _ => ⟨md, hanswer, hknows₁⟩
  -- with room for it the alert selects a file
  obtain ⟨-, -, ⟨hlow, -⟩ | ⟨-, m₂, -, hs₂, hselect⟩⟩ := metadataReceivedAlert_ok hx
  · exact absurd hlow hroom
  · obtain ⟨t₂, md₂, i, g, es, fe, -, -, -, -, -, hs'⟩ := selectFile_ok hselect
    refine ⟨m', onlyFile md₂.val.numFiles i, ?_, ?_⟩
    · rw [dispatchAlert_apply, if_pos hcan]
      exact hx
    · have heffects := congrArg Streamer.effects hs'
      have heffects₂ : m₂.streamer.effects = m.streamer.effects := by
        rw [hs₂]
        rfl
      rw [Machine.did, heffects]
      show _ ∈ (m₂.streamer.effects ++ es ++ _).drop _
      rw [heffects₂, List.append_assoc, List.drop_left]
      exact List.mem_append_right es List.mem_cons_self

theorem takeWhile_ne_cancelled {L : List Effect} (hgoes : .cancelled ∉ L) (es : List Effect) :
    (L ++ es).takeWhile (· ≠ .cancelled) = L ++ es.takeWhile (· ≠ .cancelled) := by
  refine List.takeWhile_append_of_pos fun e he => ?_
  rw [decide_eq_true_eq]
  rintro rfl
  exact hgoes he

/-- **One file is chosen for a run**: after a start that meets the condition, in every run whose
moves all meet theirs. There a metadata alert of the run's torrent that finds room is handled
without a fault, and gives the priorities. -/
theorem oneFile_of_startsAnew {e : Event} {m₀ : Machine} {seen : Option Torrent} (he : e.IsStart)
    (hm₀ : Reachable m₀) (hanew : e.StartsAnew m₀)
    (hm : Since (ChoosesOwn e m₀ h) m₀ e h m seen) :
    OneFile e h seen (m₀.didBeforeCancel m) ∧
      ∀ env md, .cancelled ∉ m₀.did m → Knows h md m → ¬ env.LowSpace h →
        m.streamer.session.canDeliver (.metadataReceived h) = true →
        ∃ m' ps, dispatchAlert env (.metadataReceived h) m = .ok () m' ∧
          .command h (.prioritizeFiles ps) ∈ m.did m' := by
  have hstands := stands_of_since he hm₀.sound hanew hm
  constructor
  · rw [Machine.didBeforeCancel]
    rcases hstands with ⟨L, hrun⟩ | hstopped
    · have htake := takeWhile_ne_cancelled hrun.goes []
      rw [List.append_nil, List.takeWhile_nil, List.append_nil] at htake
      rw [hrun.did, htake]
      exact hrun.kept.oneFile hanew.1
    · obtain ⟨L₁, L₂, heffects, hgoes, hkept⟩ := hstopped.effects
      rw [Machine.did, heffects, List.drop_left, takeWhile_ne_cancelled hgoes,
        List.takeWhile_cons_of_neg (by simp), List.append_nil]
      exact hkept.oneFile hanew.1
  · intro env md hgoes hknows hroom hcan
    rcases hstands with ⟨L, hrun⟩ | hstopped
    · exact prioritizes_of_running hrun hanew.1 (hm.sound hm₀.sound) hknows hroom hcan
    · exact absurd hstopped.cancelled hgoes

/-- A torrent of two films. The first is the larger one. -/
def twoFilms : Metadata := Metadata.films 1 40 [3]

/-- A user who selects the last name. -/
def SelectionBlock.last : SelectionBlock := ⟨⟨0, 0⟩, fun names => (names.length : Int) - 1⟩

theorem answers_last : SelectionBlock.last.Answers := by
  intro names hnames
  have hpos := List.length_pos_iff.mpr hnames
  show 0 ≤ (names.length : Int) - 1 ∧ (names.length : Int) - 1 < names.length
  omega

/-- The torrent file of two films: the user is asked before the torrent is added, and the metadata
is handled without him. -/
theorem not_oneFile_askedBefore :
    ¬ ∀ (m₀ m : Machine) (e : Event) (h : Nat) (seen : Option Torrent), Reachable m₀ →
      e.IsStart → e.Answers → Since (fun _ _ => True) m₀ e h m seen →
      OneFile e h seen (m₀.didBeforeCancel m) := by
  intro hall
  let e : Event := .startMulti (.calm twoFilms fun _ => false) "a.torrent".toList none none none
    .last
  have hanswers : e.Answers := by
    rintro callback ⟨⟩
    exact answers_last
  have hfinal : (after (step e) (Machine.init 0)).map (fun m =>
      (((Machine.init 0).did m).filterMap Effect.entered?,
        decide (.command 0 (.prioritizeFiles (onlyFile 2 0)) ∈ (Machine.init 0).didBeforeCancel m),
        (m.streamer.session.find? 0).map fun t => decide (t.info = some twoFilms))) =
      some ([0], true, some true) := by decide +kernel
  obtain ⟨m, hm, hmap⟩ := Option.map_eq_some_iff.mp hfinal
  simp only [Prod.mk.injEq, decide_eq_true_eq] at hmap
  obtain ⟨hentered, hcommand, htorrent⟩ := hmap
  obtain ⟨t, ht, hinfo⟩ := Option.map_eq_some_iff.mp htorrent
  have hstarted : Since (fun _ _ => True) (Machine.init 0) e 0 m _ :=
    .started (after_eq_some.mp hm) (eq_of_entered hentered)
  have hone := hall _ m e 0 _ ⟨0, [], rfl⟩ trivial hanswers hstarted
  obtain ⟨f, -, -, hf, hkeeps⟩ := hone.file t twoFilms ht (of_decide_eq_true hinfo)
  have hlast : f = 1 := hf
  have honly : onlyFile 2 0 = onlyFile 2 f := hkeeps _ hcommand rfl
  rw [hlast] at honly
  revert honly
  decide

/-- The magnet link of two films: the user is asked once the metadata is there, a range is mapped
through the file he takes, and its path is reported. -/
theorem oneFile_magnet :
    let e : Event := .startMulti (.calm twoFilms fun _ => false) "magnet:".toList none
      (some ⟨0, 0⟩) none .last
    ∃ m seen, OneFile e 0 seen ((Machine.init 0).didBeforeCancel m) ∧
      .mappedRange 0 1 ∈ (Machine.init 0).did m ∧
      .dispatched (.readyToPlay (some "files/0123456789abcdef/1.mp4".toList)) ∈
        (Machine.init 0).did m := by
  intro e
  let env := Env.calm twoFilms fun _ => false
  let arrives : Move := .metadataArrives 0 twoFilms
  let received : Move := .alert env (.metadataReceived 0)
  let seek : Move := .fastForward env 0 1
  let finished : Move := .alert env (.torrentFinished 0)
  have hanew : e.StartsAnew (Machine.init 0) := by
    refine ⟨?_, fun hplain => ?_, fun _ => rfl, fun env' arg hreads hlocal => ?_⟩
    · rintro callback ⟨⟩
      exact answers_last
    · cases hplain
    · obtain ⟨-, rfl⟩ := Prod.mk.inj (Option.some.inj hreads)
      exact absurd hlocal (by decide)
  have hfinal : ((after (step e) (Machine.init 0)).bind fun m₁ =>
      (after arrives.perform m₁).bind fun m₂ => (after received.perform m₂).bind fun m₃ =>
        (after seek.perform m₃).bind fun m₄ => (after finished.perform m₄).map fun m =>
          (((Machine.init 0).did m₁).filterMap Effect.entered?,
            m₂.globals.shouldUserSelectFiles, m₃.streamer.session.torrents.map (·.handle),
            decide (.cancelled ∉ (Machine.init 0).did m₁ ∧ .cancelled ∉ (Machine.init 0).did m₂ ∧
              .cancelled ∉ (Machine.init 0).did m₃ ∧ .cancelled ∉ (Machine.init 0).did m₄),
            decide (.mappedRange 0 1 ∈ (Machine.init 0).did m),
            decide (.dispatched (.readyToPlay (some "files/0123456789abcdef/1.mp4".toList)) ∈
              (Machine.init 0).did m))) =
      some ([0], true, [0], true, true, true) := by decide +kernel
  obtain ⟨m₁, hm₁, hrest⟩ := Option.bind_eq_some_iff.mp hfinal
  obtain ⟨m₂, hm₂, hrest⟩ := Option.bind_eq_some_iff.mp hrest
  obtain ⟨m₃, hm₃, hrest⟩ := Option.bind_eq_some_iff.mp hrest
  obtain ⟨m₄, hm₄, hrest⟩ := Option.bind_eq_some_iff.mp hrest
  obtain ⟨m, hm, hmap⟩ := Option.map_eq_some_iff.mp hrest
  simp only [Prod.mk.injEq, decide_eq_true_eq] at hmap
  obtain ⟨hentered, hflag, hhandles, ⟨hgoes₁, hgoes₂, hgoes₃, hgoes₄⟩, hrange, hready⟩ := hmap
  have hsince₁ : Since (ChoosesOwn e (Machine.init 0) 0) (Machine.init 0) e 0 m₁ _ :=
    .started (after_eq_some.mp hm₁) (eq_of_entered hentered)
  -- each move meets its condition
  have harrives : ChoosesOwn e (Machine.init 0) 0 m₁ arrives := ⟨hgoes₁, trivial⟩
  have hreceived : ChoosesOwn e (Machine.init 0) 0 m₂ received :=
    ⟨hgoes₂, fun _ => Or.inr (Or.inl hflag)⟩
  have hseek : ChoosesOwn e (Machine.init 0) 0 m₃ seek := by
    refine ⟨hgoes₃, ?_⟩
    show RoundsSeekOwn _ _ _ _ _ (m₃.streamer.session.torrents.map (·.handle)) _
    rw [hhandles]
    refine ⟨fun md _ => Or.inl rfl, ?_⟩
    split
    · trivial
    · trivial
  have hfinished : ChoosesOwn e (Machine.init 0) 0 m₄ finished :=
    ⟨hgoes₄, fun _ _ _ _ => Or.inl rfl⟩
  have hsince := (((hsince₁.moved harrives (after_eq_some.mp hm₂)).moved hreceived
    (after_eq_some.mp hm₃)).moved hseek (after_eq_some.mp hm₄)).moved hfinished
    (after_eq_some.mp hm)
  have hstart : e.IsStart := trivial
  exact ⟨m, _, (oneFile_of_startsAnew hstart ⟨0, [], rfl⟩ hanew hsince).1, hrange, hready⟩

end BtDownloader
