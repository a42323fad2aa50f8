import BtDownloader.Client.Outcome.Basic

set_option autoImplicit false

/-! # What the alert handlers can do

`metadataReceivedAlert`, `pieceFinishedAlert`, `torrentFinishedAlert` and
`resumeDataReadyAlertWithData`, and the dispatch of one alert in `alertsLoop`.
-/

namespace BtDownloader

open Program

variable {m m' : Machine}

/-! ## The metadata alert -/

/-- The commands with which `metadataReceivedAlert` raises the required pieces. -/
def raiseCommands (ps : List Int) : List TorrentCommand :=
  ps.flatMap fun piece =>
    [.piecePriority piece priorityMaximum, .setPieceDeadline piece pieceDeadlineMillis]

theorem each_raisePiece_ok {env : Env} {h : Nat} {ps : List Int} {u : Unit}
    (hx : each (raisePiece env h) ps m = .ok u m') :
    m'.globals = m.globals ∧ m'.streamer = m.streamer.sent env h (raiseCommands ps) := by
  induction ps generalizing m with
  | nil =>
      rw [each_nil, pure_eq_ok] at hx
      rw [hx.2]
      exact ⟨rfl, (sent_nil _ _ _).symm⟩
  | cons p ps ih =>
      obtain ⟨m₁, h₁, h₂⟩ := each_cons_ok.mp hx
      simp only [raisePiece, bind_eq_ok, send_eq_ok] at h₁
      obtain ⟨-, m₀, ⟨-, h₀⟩, -, h₁⟩ := h₁
      obtain ⟨hg, hs⟩ := ih h₂
      refine ⟨by rw [hg, h₁, h₀], ?_⟩
      rw [hs, h₁, h₀, sent_sent, sent_sent]
      rfl

/-- The file priorities that give the top priority to file `i` alone. -/
def onlyFile (n : Nat) (i : Int) : List Nat :=
  (List.replicate n prioritySkip).set i.toNat priorityMaximum

/-- The pieces `metadataReceivedAlert` requires of file `i`: the first 3% and ten pieces
counted down from the last. -/
def headAndTail (ti : TorrentInfo) (i : Int) (fe : FileEntry) : List Int :=
  piecesFrom (ti.mapFile i.toNat 0 0).piece (ti.minPieces fe).toNat
    ++ piecesDownFrom (ti.mapFile i.toNat (fe.size - 1) 0).piece 10

/-- The commands of `metadataReceivedAlert` to a torrent of `n` files: `i` is the file that
was chosen, `k` the number of pieces, `required` all pieces that are required then. -/
def selectCommands (n k : Nat) (i : Int) (required : List Int) : List TorrentCommand :=
  [.prioritizeFiles (onlyFile n i), .clearPieceDeadlines,
    .prioritizePieces (List.replicate k priorityLow)] ++ raiseCommands required

theorem Torrent.filePriorityList_length {t : Torrent} {md : Metadata} (h : t.info = some md) :
    t.filePriorityList.length = md.val.numFiles := by
  simp [filePriorityList, h]

/-- `selectFile` up to the entry of the file: the file alone gets the top priority. -/
def prioritizeFile (env : Env) (h : Nat) : Handler (Metadata × Int × FileEntry) := do
  let fileIndex ← indexOfLargestFileInTorrent h
  let priorities := (← filePriorities h).map fun _ => prioritySkip
  let priorities ← orFault .filePriorities (setAt priorities fileIndex priorityMaximum)
  send env h (.prioritizeFiles priorities)
  let md ← orFault .nullTorrentFile (← torrentFile h)
  let fe ← orFault .fileAt (md.val.fileAt fileIndex)
  pure (md, fileIndex, fe)

/-- The rest of `selectFile`: head and tail of the file are required. -/
def requireFile (env : Env) (h : Nat) : Metadata × Int × FileEntry → Handler Unit
  | (md, fileIndex, fe) => do
      setMinPieces (md.val.minPieces fe)
      let minPieces ← getMinPieces
      let firstPiece := (← mapFile md fileIndex 0 0).piece
      let lastPiece := (← mapFile md fileIndex (fe.size - 1) 0).piece
      modifies fun s => { s with
        requiredPieces := s.requiredPieces ++ piecesFrom firstPiece minPieces.toNat
          ++ piecesDownFrom lastPiece 10 }
      send env h .clearPieceDeadlines
      let priorities ← piecePriorities h
      send env h (.prioritizePieces (priorities.map fun _ => priorityLow))
      each (raisePiece env h) (← gets (·.requiredPieces))
      let status ← statusOf env h
      modifies fun s => { s with status := status }

theorem selectFile_eq (env : Env) (h : Nat) :
    selectFile env h = prioritizeFile env h >>= requireFile env h := by
  simp only [prioritizeFile, bind_assoc, pure_bind]
  rfl

theorem prioritizeFile_ok {env : Env} {h : Nat} {md : Metadata} {i : Int} {fe : FileEntry}
    (hx : prioritizeFile env h m = .ok (md, i, fe) m') :
    ∃ t es, m.streamer.session.find? h = some t ∧ t.info = some md ∧
      Selects m.globals m.streamer.selectionBlock (some md.val) i m'.globals es ∧
      md.val.fileAt i = some fe ∧ m'.streamer =
        (m.streamer.log es).sent env h [.prioritizeFiles (onlyFile md.val.numFiles i)] := by
  -- the chosen index, the list of priorities, the command, the entry of the file
  obtain ⟨i', m₁, hindex, k₁⟩ := bind_eq_ok.mp hx
  obtain ⟨files, m₂, h₂, k₂⟩ := bind_eq_ok.mp k₁
  obtain ⟨t₁, ht₁, rfl, rfl⟩ := filePriorities_eq_ok.mp h₂
  obtain ⟨ps, m₃, h₃, k₃⟩ := bind_eq_ok.mp k₂
  obtain ⟨hset, rfl⟩ := orFault_eq_ok.mp h₃
  obtain ⟨_, m₄, h₄, k₄⟩ := bind_eq_ok.mp k₃
  replace h₄ := (send_eq_ok.mp h₄).2
  obtain ⟨info, m₅, h₅, k₅⟩ := bind_eq_ok.mp k₄
  obtain ⟨t₂, ht₂, rfl, rfl⟩ := torrentFile_eq_ok.mp h₅
  obtain ⟨md', m₆, h₆, k₆⟩ := bind_eq_ok.mp k₅
  obtain ⟨hmd, rfl⟩ := orFault_eq_ok.mp h₆
  obtain ⟨fe', m₇, h₇, k₇⟩ := bind_eq_ok.mp k₆
  obtain ⟨hfe, rfl⟩ := orFault_eq_ok.mp h₇
  obtain ⟨heq, rfl⟩ := pure_eq_ok.mp k₇
  obtain ⟨rfl, rfl, rfl⟩ : md = md' ∧ i = i' ∧ fe = fe' := by simpa using heq
  obtain ⟨t, es, ht, hsel, hs₃⟩ := indexOfLargestFileInTorrent_ok hindex
  -- the torrent is the same one at each of its calls
  obtain rfl : t₁ = t := by
    rw [hs₃] at ht₁
    exact Option.some.inj (ht₁.symm.trans ht)
  have hs' : m'.streamer = (m.streamer.log es).sent env h [.prioritizeFiles ps] := by rw [h₄, hs₃]
  have hinfo : t₁.info = some md := by
    have ht' : m'.streamer.session.find? h
        = some (t₁.applyAll (env.downloaded h) [.prioritizeFiles ps]) := by
      rw [hs', find?_sent, if_pos rfl]
      exact congrArg (Option.map _) ht
    rw [← hmd, Option.some.inj (ht₂.symm.trans ht'), Torrent.applyAll_info]
  have hps : ps = onlyFile md.val.numFiles i := by
    obtain ⟨-, rfl⟩ := setAt_eq_some.mp hset
    rw [onlyFile, List.map_const', Torrent.filePriorityList_length hinfo]
  have hg' : m'.globals = m₃.globals := by rw [h₄]
  rw [hinfo] at hsel
  exact ⟨t₁, es, ht, hinfo, hg' ▸ hsel, hfe, hps ▸ hs'⟩

theorem requireFile_ok {env : Env} {h : Nat} {md : Metadata} {i : Int} {fe : FileEntry} {u : Unit}
    {t : Torrent} (ht : m.streamer.session.find? h = some t)
    (hx : requireFile env h (md, i, fe) m = .ok u m') :
    m'.globals = { m.globals with minPieces := md.val.minPieces fe } ∧
      let required := m.streamer.requiredPieces ++ headAndTail md.val i fe
      let k := (t.applyAll (env.downloaded h) [.clearPieceDeadlines]).piecePriorities.length
      m'.streamer = { m.streamer.sent env h
          ([.clearPieceDeadlines, .prioritizePieces (List.replicate k priorityLow)]
            ++ raiseCommands required) with
        requiredPieces := required, status := env.status h } := by
  -- MIN_PIECES, the head and the tail of the file
  obtain ⟨_, m₁, h₁, k₁⟩ := bind_eq_ok.mp hx
  replace h₁ := setMinPieces_eq_ok.mp h₁
  obtain ⟨min, m₂, h₂, k₂⟩ := bind_eq_ok.mp k₁
  obtain ⟨rfl, hm₂⟩ := getMinPieces_eq_ok.mp h₂
  obtain ⟨r₁, m₃, h₃, k₃⟩ := bind_eq_ok.mp k₂
  obtain ⟨-, rfl, rfl⟩ := mapFile_eq_ok.mp h₃
  obtain ⟨r₂, m₄, h₄, k₄⟩ := bind_eq_ok.mp k₃
  obtain ⟨-, rfl, rfl⟩ := mapFile_eq_ok.mp h₄
  obtain ⟨_, m₅, h₅, k₅⟩ := bind_eq_ok.mp k₄
  replace h₅ := modifies_eq_ok.mp h₅
  -- the commands: no deadlines, every piece low, the required ones raised
  obtain ⟨_, m₆, h₆, k₆⟩ := bind_eq_ok.mp k₅
  replace h₆ := (send_eq_ok.mp h₆).2
  obtain ⟨prios, m₇, h₇, k₇⟩ := bind_eq_ok.mp k₆
  obtain ⟨t', ht', rfl, rfl⟩ := piecePriorities_eq_ok.mp h₇
  obtain ⟨_, m₈, h₈, k₈⟩ := bind_eq_ok.mp k₇
  replace h₈ := (send_eq_ok.mp h₈).2
  obtain ⟨req, m₉, h₉, k₉⟩ := bind_eq_ok.mp k₈
  obtain ⟨rfl, rfl⟩ := gets_eq_ok.mp h₉
  obtain ⟨_, m₁₀, h₁₀, k₁₀⟩ := bind_eq_ok.mp k₉
  obtain ⟨st, m₁₁, h₁₁, k₁₁⟩ := bind_eq_ok.mp k₁₀
  obtain ⟨-, rfl, rfl⟩ := statusOf_eq_ok.mp h₁₁
  have hlast := modifies_eq_ok.mp k₁₁
  obtain ⟨hg₁₀, hs₁₀⟩ := each_raisePiece_ok h₁₀
  -- the streamer after each of these parts
  have hg₄ : m₄.globals = { m.globals with minPieces := md.val.minPieces fe } := by rw [hm₂, h₁]
  have hs₄ : m₄.streamer = m.streamer := by rw [hm₂, h₁]
  have hmin : m₁.globals.minPieces = md.val.minPieces fe := by rw [h₁]
  have hs₅ : m₅.streamer = m.streamer.requires
      (m.streamer.requiredPieces ++ headAndTail md.val i fe) := by
    rw [h₅, hmin, headAndTail, ← hs₄, ← List.append_assoc]
    rfl
  have hs₇ : m₇.streamer = (m.streamer.sent env h [.clearPieceDeadlines]).requires
      (m.streamer.requiredPieces ++ headAndTail md.val i fe) := by
    rw [h₆, hs₅, requires_sent]
  have hk : t' = t.applyAll (env.downloaded h) [.clearPieceDeadlines] := by
    have hcleared : m₇.streamer.session.find? h =
        some (t.applyAll (env.downloaded h) [.clearPieceDeadlines]) := by
      rw [hs₇]
      refine (find?_sent _ _ _ _ _).trans ?_
      rw [if_pos rfl, ht]
      rfl
    exact Option.some.inj (ht'.symm.trans hcleared)
  have hs₉ : m₉.streamer = (m.streamer.sent env h [.clearPieceDeadlines,
      .prioritizePieces (List.replicate t'.piecePriorities.length priorityLow)]).requires
        (m.streamer.requiredPieces ++ headAndTail md.val i fe) := by
    rw [h₈, hs₇, requires_sent, sent_sent, List.map_const']
    rfl
  refine ⟨by rw [hlast, hg₁₀, h₈, h₆, h₅, hg₄], ?_⟩
  have hs' : m'.streamer = { m₁₁.streamer with status := env.status h } := by rw [hlast]
  rw [hs', hs₁₀, hs₉, requires_sent, sent_sent, hk]
  rfl

/-- **What `selectFile` does.** -/
theorem selectFile_ok {env : Env} {h : Nat} {u : Unit} (hx : selectFile env h m = .ok u m') :
    ∃ t md i g es fe, m.streamer.session.find? h = some t ∧ t.info = some md ∧
      Selects m.globals m.streamer.selectionBlock (some md.val) i g es ∧ md.val.fileAt i = some fe ∧
      m'.globals = { g with minPieces := md.val.minPieces fe } ∧
      let required := m.streamer.requiredPieces ++ headAndTail md.val i fe
      let k := (t.applyAll (env.downloaded h) [.prioritizeFiles (onlyFile md.val.numFiles i),
        .clearPieceDeadlines]).piecePriorities.length
      m'.streamer = { (m.streamer.log es).sent env h
          (selectCommands md.val.numFiles k i required) with
        requiredPieces := required, status := env.status h } := by
  rw [selectFile_eq] at hx
  obtain ⟨⟨md, i, fe⟩, m₁, h₁, hrequire⟩ := bind_eq_ok.mp hx
  obtain ⟨t, es, ht, hinfo, hselects, hfe, hs₁⟩ := prioritizeFile_ok h₁
  have ht₁ : m₁.streamer.session.find? h = some (t.applyAll (env.downloaded h)
      [.prioritizeFiles (onlyFile md.val.numFiles i)]) := by
    rw [hs₁, find?_sent, if_pos rfl]
    exact congrArg (Option.map _) ht
  obtain ⟨hg', hs'⟩ := requireFile_ok ht₁ hrequire
  refine ⟨t, md, i, m₁.globals, es, fe, ht, hinfo, hselects, hfe, hg', ?_⟩
  have hrequired : m₁.streamer.requiredPieces = m.streamer.requiredPieces := by
    rw [hs₁]
    rfl
  rw [hs', hrequired, hs₁, sent_sent]
  rfl

/-- The call of a failure block, where there is one. -/
def failureEffects (failure : Option BlockId) (error : NSError) : List Effect :=
  match failure with
  | some block => [.calledFailure block error]
  | none => []

theorem callFailure_ok {failure : Option BlockId} {error : NSError} {u : Unit}
    (hx : callFailure failure error m = .ok u m') :
    m'.globals = m.globals ∧ m'.streamer = m.streamer.log (failureEffects failure error) := by
  cases failure with
  | none =>
      rw [(pure_eq_ok.mp hx).2]
      exact ⟨rfl, (log_nil _).symm⟩
  | some block =>
      rw [emit_eq_ok.mp hx]
      exact ⟨rfl, rfl⟩

/-- The streamer that has noted how much space the download takes. -/
def Streamer.needs (space : Int) (s : Streamer) : Streamer := { s with requiredSpace := space }

/-- The error for a download the device has no room for. -/
def spaceError (env : Env) (requiredSpace : Int) : NSError :=
  ⟨-4, "手机缺乏足够的空间下载文件，请预留至少 ".toList
    ++ env.byteCountString requiredSpace ++ " 并重试。".toList⟩

/-- The device has no room for what libtorrent wants of torrent `h`. -/
def Env.LowSpace (env : Env) (h : Nat) : Prop := env.availableSpace < (env.status h).totalWanted

instance (env : Env) (h : Nat) : Decidable (env.LowSpace h) :=
  inferInstanceAs (Decidable (_ < _))

/-- **What `metadataReceivedAlert` does.** Without room for the download it reports an error
and cancels, else it selects the file. -/
theorem metadataReceivedAlert_ok {env : Env} {h : Nat} {u : Unit}
    (hx : metadataReceivedAlert env h m = .ok u m') :
    m.streamer.savePath.isSome ∧ (∃ t, m.streamer.session.find? h = some t) ∧
    ((env.LowSpace h ∧ ∃ m₁, m₁.globals = m.globals ∧
        m₁.streamer = (m.streamer.needs (env.status h).totalWanted).log
          (failureEffects m.streamer.failureBlock (spaceError env (env.status h).totalWanted)) ∧
        cancelStreamingAndDeleteData env false m₁ = .ok u m') ∨
      (¬ env.LowSpace h ∧ ∃ m₁, m₁.globals = m.globals ∧
        m₁.streamer = m.streamer.needs (env.status h).totalWanted ∧
        selectFile env h m₁ = .ok u m')) := by
  obtain ⟨st, m₁, h₁, k₁⟩ := bind_eq_ok.mp hx
  obtain ⟨ht, hst, rfl⟩ := statusOf_eq_ok.mp h₁
  subst hst
  obtain ⟨_, m₂, h₂, k₂⟩ := bind_eq_ok.mp k₁
  replace h₂ := modifies_eq_ok.mp h₂
  obtain ⟨path?, m₃, h₃, k₃⟩ := bind_eq_ok.mp k₂
  obtain ⟨rfl, hm₃⟩ := gets_eq_ok.mp h₃
  obtain ⟨path, m₄, h₄, k₄⟩ := bind_eq_ok.mp k₃
  obtain ⟨hpath, hm₄⟩ := orFault_eq_ok.mp h₄
  obtain ⟨space, m₅, h₅, k₅⟩ := bind_eq_ok.mp k₄
  obtain ⟨hspace, hm₅⟩ := gets_eq_ok.mp h₅
  have hs₅ : m₅.streamer = m₁.streamer.needs (env.status h).totalWanted := by
    rw [hm₅, hm₄, hm₃, h₂]
    rfl
  have hg₅ : m₅.globals = m₁.globals := by rw [hm₅, hm₄, hm₃, h₂]
  have hspace : space = (env.status h).totalWanted := by
    rw [hspace, ← hm₅, hs₅]
    rfl
  subst hspace
  refine ⟨?_, ht, ?_⟩
  · have hp : m₂.streamer.savePath = m₁.streamer.savePath := by rw [h₂]
    rw [← hp, hpath]
    rfl
  -- the space is compared, and the failure block called where there is too little
  · rcases ite_eq_ok.mp k₅ with ⟨hlow, k₆⟩ | ⟨hroom, k₆⟩
    · obtain ⟨failure, m₆, h₆, k₇⟩ := bind_eq_ok.mp k₆
      obtain ⟨rfl, hm₆⟩ := gets_eq_ok.mp h₆
      obtain ⟨_, m₇, h₇, k₈⟩ := bind_eq_ok.mp k₇
      obtain ⟨hg₇, hs₇⟩ := callFailure_ok h₇
      refine Or.inl ⟨hlow, m₇, by rw [hg₇, hm₆, hg₅], ?_, k₈⟩
      rw [hs₇, hm₆, hs₅]
      rfl
    · exact Or.inr ⟨hroom, m₅, hg₅, hs₅, k₆⟩

/-! ## The piece-finished alert -/

/-- All pieces of the list are downloaded. -/
def Torrent.hasAll (env : Env) (t : Torrent) (ps : List Int) : Bool := ps.all (t.has env)

theorem countRequired_ok {env : Env} {h : Nat} {ps : List Int} {n : Nat} {all : Bool}
    {r : Nat × Bool} (hx : countRequired env h ps n all m = .ok r m') :
    m' = m ∧ (ps = [] ∨ m.streamer.session.paused = true → r.2 = all) ∧
      ∀ t, m.streamer.session.find? h = some t → m.streamer.session.paused = false →
        r = (n + (ps.filter (t.has env)).length, all && t.hasAll env ps) := by
  induction ps generalizing n all with
  | nil =>
      obtain ⟨rfl, rfl⟩ := pure_eq_ok.mp hx
      simp [Torrent.hasAll]
  | cons p ps ih =>
      obtain ⟨paused, m₁, h₁, k₁⟩ := bind_eq_ok.mp hx
      obtain ⟨rfl, rfl⟩ := gets_eq_ok.mp h₁
      rcases ite_eq_ok.mp k₁ with ⟨hp, k₂⟩ | ⟨hp, k₂⟩
      · obtain ⟨rfl, rfl⟩ := pure_eq_ok.mp k₂
        simp [hp]
      · obtain ⟨b, m₂, h₂, k₃⟩ := bind_eq_ok.mp k₂
        obtain ⟨t, ht, rfl, rfl⟩ := havePiece_eq_ok.mp h₂
        rcases ite_eq_ok.mp k₃ with ⟨hb, k₄⟩ | ⟨hb, k₄⟩
        · obtain ⟨hm, -, hr⟩ := ih k₄
          refine ⟨hm, fun h => ?_, fun t' ht' hpaused => ?_⟩
          · simp [hp] at h
          · obtain rfl : t' = t := Option.some.inj (ht'.symm.trans ht)
            rw [hr t' ht' hpaused]
            simp only [List.filter_cons, hb, if_true, List.length_cons, Torrent.hasAll,
              List.all_cons, Bool.true_and]
            congr 1
            omega
        · obtain ⟨hm, -, hr⟩ := ih k₄
          refine ⟨hm, fun h => ?_, fun t' ht' hpaused => ?_⟩
          · simp [hp] at h
          · obtain rfl : t' = t := Option.some.inj (ht'.symm.trans ht)
            rw [hr t' ht' hpaused]
            simp [Torrent.hasAll, hb]

/-- All required pieces are downloaded, or `pieceFinishedAlert` does not look because the
session is paused. -/
def Machine.allPresent (env : Env) (h : Nat) (m : Machine) : Bool :=
  m.streamer.session.paused ||
    (m.streamer.session.find? h).all (·.hasAll env m.streamer.requiredPieces)

/-- What `pieceFinishedAlert` tells about the progress. -/
def pieceStatus (st : TorrentStatus) (required downloaded : Nat) : PTTorrentStatus where
  bufferingProgress := bufferingProgress required downloaded
  totalProgress := st.progress
  downloadSpeed := st.downloadRate
  uploadSpeed := st.uploadRate
  seeds := st.numSeeds
  peers := st.numPeers
  totalWanted := st.totalWanted
  totalWantedDone := st.totalWantedDone

/-- The streamer with the progress of a torrent noted and told to the main queue. -/
def Streamer.progress (st : TorrentStatus) (told : PTTorrentStatus) (s : Streamer) : Streamer :=
  ({ s with
    status := st
    torrentStatus := told
    totalDownloaded := st.totalWantedDone
    isFinished := st.isFinished } : Streamer).dispatch .progress

/-- What `pieceFinishedAlert` does up to the question whether all required pieces are there. Where
the session is not paused it counts every required piece that is there. -/
theorem tellProgress_ok {env : Env} {h : Nat} {all : Bool}
    (hx : tellProgress env h m = .ok all m') :
    (∃ t, m.streamer.session.find? h = some t) ∧ all = m.allPresent env h ∧
      m'.globals = m.globals ∧ ∃ n, m'.streamer = m.streamer.progress (env.status h)
        (pieceStatus (env.status h) m.streamer.requiredPieces.length n) ∧
        ∀ t, m.streamer.session.find? h = some t → m.streamer.session.paused = false →
          n = (m.streamer.requiredPieces.filter (t.has env)).length := by
  obtain ⟨st, m₁, h₁, k₁⟩ := bind_eq_ok.mp hx
  obtain ⟨⟨t, ht⟩, rfl, hm₁⟩ := statusOf_eq_ok.mp h₁
  obtain ⟨_, m₂, h₂, k₂⟩ := bind_eq_ok.mp k₁
  replace h₂ := modifies_eq_ok.mp h₂
  obtain ⟨required, m₃, h₃, k₃⟩ := bind_eq_ok.mp k₂
  obtain ⟨hrequired, hm₃⟩ := gets_eq_ok.mp h₃
  -- the pieces that are there are counted, unless the session is paused
  obtain ⟨⟨n, present⟩, m₄, h₄, k₄⟩ := bind_eq_ok.mp k₃
  obtain ⟨hm₄, hpaused, hall⟩ := countRequired_ok h₄
  obtain ⟨_, m₅, h₅, k₅⟩ := bind_eq_ok.mp k₄
  replace h₅ := modifies_eq_ok.mp h₅
  obtain ⟨_, m₆, h₆, k₆⟩ := bind_eq_ok.mp k₅
  replace h₆ := dispatchMain_eq_ok.mp h₆
  obtain ⟨rfl, hm'⟩ := pure_eq_ok.mp k₆
  have hs₂ : m₂.streamer = { m.streamer with status := env.status h } := by rw [h₂, hm₁]
  have hreq : required = m.streamer.requiredPieces := by rw [hrequired, hs₂]
  subst hreq
  rw [hm₃, hs₂] at hpaused hall
  refine ⟨⟨t, ht⟩, ?_, by rw [hm', h₆, h₅, hm₄, hm₃, h₂, hm₁], n, ?_, fun t' ht' hp => ?_⟩
  · rw [Machine.allPresent, ht]
    cases hp : m.streamer.session.paused with
    | true => simpa [hp] using hpaused (Or.inr hp)
    | false =>
        have hcount := hall t ht hp
        simp only [Prod.mk.injEq, Bool.true_and] at hcount
        simpa using hcount.2
  · have hs₄ : m₄.streamer = m₂.streamer := by rw [hm₄, hm₃]
    rw [hm', h₆, h₅, hs₄, hs₂]
    rfl
  · have hcount := hall t' ht' hp
    simpa using congrArg Prod.fst hcount

/-- **What `pieceFinishedAlert` does.** It tells the progress; when all required pieces are
there it selects the file again, if `MIN_PIECES` is `0`, and moves the window on. -/
theorem pieceFinishedAlert_ok {env : Env} {h : Nat} {u : Unit}
    (hx : pieceFinishedAlert env h m = .ok u m') :
    (∃ t, m.streamer.session.find? h = some t) ∧
    ∃ (n : Nat) (m₁ : Machine), m₁.globals = m.globals ∧
      m₁.streamer = m.streamer.progress (env.status h)
        (pieceStatus (env.status h) m.streamer.requiredPieces.length n) ∧
      ((m.allPresent env h = false ∧ m'.globals = m₁.globals ∧ m'.streamer = m₁.streamer) ∨
       (m.allPresent env h = true ∧ ∃ m₂ : Machine, prioritizeNextPieces env h m₂ = .ok () m' ∧
        ((m.globals.minPieces ≠ 0 ∧ m₂.globals = m₁.globals ∧ m₂.streamer = m₁.streamer) ∨
         (m.globals.minPieces = 0 ∧ ∃ m₃ : Machine, m₃.globals = m₁.globals ∧
          m₃.streamer = m₁.streamer ∧ metadataReceivedAlert env h m₃ = .ok () m₂)))) := by
  rw [pieceFinishedAlert_eq] at hx
  obtain ⟨all, m₁, h₁, k₁⟩ := bind_eq_ok.mp hx
  obtain ⟨ht, hall, hg₁, n, hs₁, -⟩ := tellProgress_ok h₁
  refine ⟨ht, n, m₁, hg₁, hs₁, ?_⟩
  rcases ite_eq_ok.mp k₁ with ⟨hyes, k₂⟩ | ⟨hno, k₂⟩
  · obtain ⟨min, m₂, h₂, k₃⟩ := bind_eq_ok.mp k₂
    obtain ⟨hmin, hm₂⟩ := getMinPieces_eq_ok.mp h₂
    obtain ⟨_, m₃, h₃, k₄⟩ := bind_eq_ok.mp k₃
    rw [hg₁] at hmin
    subst hmin
    refine Or.inr ⟨by rw [← hall, hyes], m₃, k₄, ?_⟩
    rcases whenever_eq_ok.mp h₃ with ⟨hmin, h₃⟩ | ⟨hmin, h₃⟩
    · exact Or.inr ⟨hmin, m₂, by rw [hm₂], by rw [hm₂], h₃⟩
    · exact Or.inl ⟨hmin, by rw [h₃, hm₂], by rw [h₃, hm₂]⟩
  · obtain ⟨-, rfl⟩ := pure_eq_ok.mp k₂
    exact Or.inl ⟨by rw [← hall]; simpa using hno, rfl, rfl⟩

/-! ## The torrent-finished alert -/

/-- The streamer after `startWebServerAndPlay`. -/
def Streamer.ready (s : Streamer) : Streamer :=
  ({ s with
    alertsLoopActive := false
    scheduledTimers := s.invalidateTimer.scheduledTimers } : Streamer).dispatch
      (.readyToPlay (s.savePath.map fun path => appendPathComponent path (s.fileName.getD [])))

theorem startWebServerAndPlay_ok {u : Unit} (hx : startWebServerAndPlay m = .ok u m') :
    m'.globals = m.globals ∧ m'.streamer = m.streamer.ready := by
  obtain ⟨_, m₁, h₁, k₁⟩ := bind_eq_ok.mp hx
  replace h₁ := modifies_eq_ok.mp h₁
  obtain ⟨_, m₂, h₂, k₂⟩ := bind_eq_ok.mp k₁
  replace h₂ := modifies_eq_ok.mp h₂
  obtain ⟨path, m₃, h₃, k₃⟩ := bind_eq_ok.mp k₂
  obtain ⟨hpath, hm₃⟩ := gets_eq_ok.mp h₃
  obtain ⟨name, m₄, h₄, k₄⟩ := bind_eq_ok.mp k₃
  obtain ⟨hname, hm₄⟩ := gets_eq_ok.mp h₄
  replace k₄ := dispatchMain_eq_ok.mp k₄
  have hs₂ : m₂.streamer = { m.streamer with
      alertsLoopActive := false
      scheduledTimers := m.streamer.invalidateTimer.scheduledTimers } := by
    rw [h₂, h₁]
    rfl
  rw [hm₃] at hname
  rw [hs₂] at hpath hname
  refine ⟨by rw [k₄, hm₄, hm₃, h₂, h₁], ?_⟩
  rw [k₄, hm₄, hm₃, hs₂, hpath, hname]
  rfl

/-- The streamer that has noted which file it streams. -/
def Streamer.streams (st : TorrentStatus) (fe : FileEntry) (s : Streamer) : Streamer :=
  { s with streaming := true, status := st, fileName := some fe.path }

/-- **What `processTorrent` does.** In a run that is not streaming yet, it notes the path of
the chosen file and, where there is a block for it, reports it as ready. -/
theorem processTorrent_ok {env : Env} {h : Nat} {u : Unit}
    (hx : processTorrent env h m = .ok u m') :
    (m.streamer.streaming = true ∧ m' = m) ∨
    (m.streamer.streaming = false ∧ ∃ t md fe i es, m.streamer.session.find? h = some t ∧
      t.info = some md ∧ md.val.fileAt i = some fe ∧
      Chooses m.globals m.streamer.selectionBlock (some md.val) i m'.globals es ∧
      let s := (m.streamer.log es).streams (env.status h) fe
      m'.streamer = if m.streamer.readyToPlayBlock.isSome then s.ready else s) := by
  obtain ⟨streaming, m₁, h₁, k₁⟩ := bind_eq_ok.mp hx
  obtain ⟨rfl, hm₁⟩ := gets_eq_ok.mp h₁
  rcases ite_eq_ok.mp k₁ with ⟨hstreaming, k₂⟩ | ⟨hstreaming, k₂⟩
  · exact Or.inl ⟨hstreaming, by rw [(pure_eq_ok.mp k₂).2, hm₁]⟩
  -- not streaming yet: it is from here on, with the status of now
  obtain ⟨_, m₂, h₂, k₃⟩ := bind_eq_ok.mp k₂
  replace h₂ := modifies_eq_ok.mp h₂
  obtain ⟨st, m₃, h₃, k₄⟩ := bind_eq_ok.mp k₃
  obtain ⟨-, rfl, hm₃⟩ := statusOf_eq_ok.mp h₃
  obtain ⟨_, m₄, h₄, k₅⟩ := bind_eq_ok.mp k₄
  replace h₄ := modifies_eq_ok.mp h₄
  -- the file is chosen and its path noted
  obtain ⟨info, m₅, h₅, k₆⟩ := bind_eq_ok.mp k₅
  obtain ⟨t, ht, rfl, hm₅⟩ := torrentFile_eq_ok.mp h₅
  obtain ⟨i, m₆, h₆, k₇⟩ := bind_eq_ok.mp k₆
  obtain ⟨md, m₇, h₇, k₈⟩ := bind_eq_ok.mp k₇
  obtain ⟨hmd, hm₇⟩ := orFault_eq_ok.mp h₇
  obtain ⟨fe, m₈, h₈, k₉⟩ := bind_eq_ok.mp k₈
  obtain ⟨hfe, hm₈⟩ := orFault_eq_ok.mp h₈
  obtain ⟨_, m₉, h₉, k₁₀⟩ := bind_eq_ok.mp k₉
  replace h₉ := modifies_eq_ok.mp h₉
  -- the path is reported where there is a block for it
  obtain ⟨block, m₁₀, h₁₀, k₁₁⟩ := bind_eq_ok.mp k₁₀
  obtain ⟨rfl, hm₁₀⟩ := gets_eq_ok.mp h₁₀
  have hs₄ : m₄.streamer = { m.streamer with streaming := true, status := env.status h } := by
    have hs₃ : m₃.streamer = { m.streamer with streaming := true } := by rw [hm₃, h₂, hm₁]
    rw [h₄, hs₃]
  have hg₄ : m₄.globals = m.globals := by rw [h₄, hm₃, h₂, hm₁]
  rw [hm₅] at h₆
  obtain ⟨es, hchoice, hs₆⟩ := selectedFileIndexOrLargest_ok h₆ ht
  rw [hg₄, hs₄, hmd] at hchoice
  have hs₉ : m₉.streamer = (m.streamer.log es).streams (env.status h) fe := by
    have hs : m₉.streamer = { m₆.streamer with fileName := some fe.path } := by rw [h₉, hm₈, hm₇]
    rw [hs, hs₆, hs₄]
    rfl
  have hg₉ : m₉.globals = m₆.globals := by rw [h₉, hm₈, hm₇]
  have hblock : m₉.streamer.readyToPlayBlock = m.streamer.readyToPlayBlock := by
    rw [hs₉]
    rfl
  have hfind : m.streamer.session.find? h = some t := by rwa [hs₄] at ht
  rw [hblock] at k₁₁
  have hstreaming : m.streamer.streaming = false := by simpa [hm₁] using hstreaming
  rcases whenever_eq_ok.mp k₁₁ with ⟨hsome, k₁₂⟩ | ⟨hnone, k₁₂⟩
  · obtain ⟨hg, hs⟩ := startWebServerAndPlay_ok k₁₂
    refine Or.inr ⟨hstreaming, t, md, fe, i, es, hfind, hmd, hfe, ?_, ?_⟩
    · rwa [hg, hm₁₀, hg₉]
    · dsimp only
      rw [if_pos hsome, hs, hm₁₀, hs₉]
  · refine Or.inr ⟨hstreaming, t, md, fe, i, es, hfind, hmd, hfe, ?_, ?_⟩
    · rwa [k₁₂, hm₁₀, hg₉]
    · dsimp only
      rw [if_neg hnone, k₁₂, hm₁₀, hs₉]

/-- The streamer after a torrent has finished: `told` is what it tells about the progress. -/
def Streamer.finish (h : Nat) (s : Streamer) : Streamer :=
  let told : PTTorrentStatus := {
    bufferingProgress := some 1
    totalProgress := 1
    downloadSpeed := s.status.downloadRate
    uploadSpeed := s.status.uploadRate
    seeds := s.status.numSeeds
    peers := s.status.numPeers }
  let s := ((s.progress s.status told).dispatch (.networkActivityIndicator false))
  { s with
    session := s.session.removeTorrent h
    effects := s.effects ++ [.command h (.pause true), .removed h, .finished h] }

theorem removeTorrent_update (session : Session) (h : Nat) (f : Torrent → Torrent)
    (hf : ∀ t, (f t).handle = t.handle) :
    (session.update h f).removeTorrent h = session.removeTorrent h := by
  unfold Session.update Session.removeTorrent
  simp only [Session.mk.injEq, and_true, true_and]
  induction session.torrents with
  | nil => rfl
  | cons t ts ih =>
      rw [List.map_cons, List.filter_cons, List.filter_cons, ih]
      by_cases ht : t.handle = h
      · simp [ht, hf]
      · simp [ht]

theorem processTorrent_session {env : Env} {h : Nat} {u : Unit}
    (hx : processTorrent env h m = .ok u m') :
    m'.streamer.session = m.streamer.session := by
  rcases processTorrent_ok hx with ⟨-, rfl⟩ | ⟨-, t, md, fe, i, es, -, -, -, -, hs⟩
  · rfl
  · rw [hs]
    split <;> rfl

/-- **What `torrentFinishedAlert` does.** -/
theorem torrentFinishedAlert_ok {env : Env} {h : Nat} {u : Unit}
    (hx : torrentFinishedAlert env h m = .ok u m') :
    (∃ t, m.streamer.session.find? h = some t) ∧
    ∃ m₁ : Machine, processTorrent env h m = .ok () m₁ ∧ m'.globals = m₁.globals ∧
      m'.streamer = m₁.streamer.finish h := by
  obtain ⟨_, m₁, h₁, k₁⟩ := bind_eq_ok.mp hx
  -- the progress is told from the status that processTorrent left
  obtain ⟨st, m₂, h₂, k₂⟩ := bind_eq_ok.mp k₁
  obtain ⟨rfl, hm₂⟩ := gets_eq_ok.mp h₂
  obtain ⟨_, m₃, h₃, k₃⟩ := bind_eq_ok.mp k₂
  replace h₃ := modifies_eq_ok.mp h₃
  obtain ⟨_, m₄, h₄, k₄⟩ := bind_eq_ok.mp k₃
  replace h₄ := dispatchMain_eq_ok.mp h₄
  obtain ⟨_, m₅, h₅, k₅⟩ := bind_eq_ok.mp k₄
  replace h₅ := dispatchMain_eq_ok.mp h₅
  obtain ⟨_, m₆, h₆, k₆⟩ := bind_eq_ok.mp k₅
  obtain ⟨⟨t, ht⟩, h₆⟩ := send_eq_ok.mp h₆
  obtain ⟨_, m₇, h₇, k₇⟩ := bind_eq_ok.mp k₆
  replace h₇ := modifies_eq_ok.mp h₇
  replace k₇ := emit_eq_ok.mp k₇
  have hs₃ : m₃.streamer = { m₁.streamer with
      torrentStatus := {
        bufferingProgress := some 1
        totalProgress := 1
        downloadSpeed := m₁.streamer.status.downloadRate
        uploadSpeed := m₁.streamer.status.uploadRate
        seeds := m₁.streamer.status.numSeeds
        peers := m₁.streamer.status.numPeers }
      totalDownloaded := m₁.streamer.status.totalWantedDone
      isFinished := m₁.streamer.status.isFinished } := by rw [h₃, hm₂]
  have hs₅ : m₅.streamer = (m₃.streamer.dispatch .progress).dispatch
      (.networkActivityIndicator false) := by rw [h₅, h₄]
  refine ⟨⟨t, ?_⟩, m₁, h₁, by rw [k₇, h₇, h₆, h₅, h₄, h₃, hm₂], ?_⟩
  · rw [← processTorrent_session h₁, ← ht, hs₅, hs₃]
    rfl
  -- the torrent is paused before it is removed, which leaves nothing of it
  · have hremoved := removeTorrent_update m₁.streamer.session h
      (·.applyAll (env.downloaded h) [.pause true]) fun t => Torrent.applyAll_handle _ t _
    rw [k₇, h₇, h₆]
    simp only [Streamer.finish, Streamer.progress, Streamer.dispatch, Streamer.sent, Streamer.log,
      Streamer.mapSession, hs₅, hs₃, hremoved, List.append_assoc, List.map_cons, List.map_nil,
      List.cons_append, List.nil_append]

theorem each_removeTorrent_ok {hs : List Nat} {u : Unit}
    (hx : each removeTorrent hs m = .ok u m') :
    m'.globals = m.globals ∧ m'.streamer = m.streamer.withSession
      { m.streamer.session with
        torrents := m.streamer.session.torrents.filter (·.handle ∉ hs) } (hs.map .removed) := by
  induction hs generalizing m with
  | nil =>
      rw [each_nil, pure_eq_ok] at hx
      rw [hx.2]
      simp [Streamer.withSession]
  | cons h hs ih =>
      obtain ⟨m₁, h₁, h₂⟩ := each_cons_ok.mp hx
      replace h₁ := modifies_eq_ok.mp h₁
      obtain ⟨hg, hs₂⟩ := ih h₂
      refine ⟨by rw [hg, h₁], ?_⟩
      rw [hs₂, h₁]
      simp only [Streamer.withSession, Streamer.log, Streamer.mapSession, Session.removeTorrent,
        List.filter_filter, List.append_assoc, List.map_cons, List.singleton_append,
        List.mem_cons, not_or, Bool.decide_and, Bool.and_comm]

/-- **What `resumeDataReadyAlertWithData` does.** It removes every torrent of the session. -/
theorem resumeDataReadyAlertWithData_ok {h : Nat} {u : Unit}
    (hx : resumeDataReadyAlertWithData h m = .ok u m') :
    m'.globals = m.globals ∧ m'.streamer = ({ m.streamer with
          audioPlaying := false
          alertsLoopActive := false
          savePath := none } : Streamer).withSession
        { m.streamer.session with torrents := [] }
        (m.streamer.session.torrents.map (fun t => .removed t.handle) ++ [.wroteResumeData h]) := by
  obtain ⟨_, m₁, h₁, k₁⟩ := bind_eq_ok.mp hx
  replace h₁ := modifies_eq_ok.mp h₁
  obtain ⟨ths, m₂, h₂, k₂⟩ := bind_eq_ok.mp k₁
  obtain ⟨rfl, hm₂⟩ := gets_eq_ok.mp h₂
  obtain ⟨_, m₃, h₃, k₃⟩ := bind_eq_ok.mp k₂
  obtain ⟨hg₃, hs₃⟩ := each_removeTorrent_ok h₃
  replace k₃ := emit_eq_ok.mp k₃
  have hs₁ : m₁.streamer =
      { m.streamer with audioPlaying := false, alertsLoopActive := false, savePath := none } := by
    rw [h₁]
  have hnone : m₁.streamer.session.torrents.filter
      (·.handle ∉ m₁.streamer.session.torrents.map (·.handle)) = [] := by
    rw [List.filter_eq_nil_iff]
    intro t ht
    simpa using ⟨t, ht, rfl⟩
  refine ⟨by rw [k₃, hg₃, hm₂, h₁], ?_⟩
  rw [k₃, hs₃, hm₂, hnone, hs₁, List.map_map]
  simp only [Streamer.log, Streamer.withSession, List.append_assoc]
  rfl

/-! ## The dispatch of an alert -/

/-- The streamer once libtorrent has delivered an alert. -/
def Streamer.delivers (a : Alert) (s : Streamer) : Streamer := s.mapSession (·.deliver a)

/-- What `alertsLoop` does with an alert that libtorrent delivers. -/
def handleAlert (env : Env) : Alert → Handler Unit
  | .metadataReceived h => metadataReceivedAlert env h
  | .pieceFinished h _ => pieceFinishedAlert env h
  | .torrentFinished h => torrentFinishedAlert env h
  | .saveResumeData h => do
      let _ ← statusOf env h
      resumeDataReadyAlertWithData h

theorem dispatchAlert_apply (env : Env) (a : Alert) (m : Machine) :
    dispatchAlert env a m = if m.streamer.session.canDeliver a then
      handleAlert env a { m with streamer := m.streamer.delivers a } else .ok () m := by
  cases a <;> simp only [dispatchAlert] <;> rw [bind_apply] <;>
    cases hd : m.streamer.session.canDeliver _ <;> simp [gets, hd] <;> rfl

end BtDownloader
