import BtDownloader.Client.Outcome.Alerts

set_option autoImplicit false

/-! # What a start and a fast-forward can do -/

namespace BtDownloader

open Program

variable {m m' : Machine}

/-! ## Starting -/

/-- What a start reads from its argument when it gets parameters for `add_torrent`. -/
inductive Loads (env : Env) (arg : Text) (m m' : Machine) : AddTorrentParams × Text → Prop
  | magnet (tp : AddTorrentParams) (hmagnet : isMagnet arg = true)
      (hparse : env.parseMagnetUri arg = .ok tp) (hm : m' = m) :
      Loads env arg m m' (tp, env.md5 arg)
  | file (md : Metadata) (i : Int) (fe : FileEntry) (g : Globals) (es : List Effect)
      (hfile : isMagnet arg = false) (hexists : env.fileExists arg = true)
      (hparse : env.torrentFile arg = .ok md.val)
      (hselects : Selects m.globals m.streamer.selectionBlock (some md.val) i g es)
      (hfe : md.val.fileAt i = some fe)
      (hg : m'.globals = { g with minPieces := md.val.minPieces fe })
      (hs : m'.streamer = m.streamer.log es) :
      Loads env arg m m' ({ infoHash := md.val.infoHash, ti := some md.val }, env.fileMD5 arg)

theorem AddTorrentParams.info_eq_some {tp : AddTorrentParams} {md : Metadata}
    (hti : tp.ti = some md.val) : tp.info = some md := by
  rw [AddTorrentParams.info, hti, Option.bind_some, dif_pos md.property]

theorem fileAt_invalid (i : Int) : TorrentInfo.invalid.fileAt i = none := by
  simp [TorrentInfo.fileAt, TorrentInfo.invalid]

/-- A start either gets its parameters or has found that the file is missing. A file that
does not parse, or holds no metadata, has no file to ask the size of. -/
theorem loadParams_ok {env : Env} {arg : Text} {r : Except NSError (AddTorrentParams × Text)}
    (hx : loadParams env arg m = .ok r m') :
    (∃ p, r = .ok p ∧ Loads env arg m m' p) ∨
    (isMagnet arg = false ∧ env.fileExists arg = false ∧ (∃ error, r = .error error) ∧
      m' = m) := by
  unfold loadParams at hx
  rcases ite_eq_ok.mp hx with ⟨hmagnet, k₁⟩ | ⟨hmagnet, k₁⟩
  · cases hparse : env.parseMagnetUri arg with
    | ok tp =>
        rw [hparse] at k₁
        obtain ⟨rfl, hm⟩ := pure_eq_ok.mp k₁
        exact Or.inl ⟨_, rfl, .magnet tp hmagnet hparse hm⟩
    | error message =>
        rw [hparse] at k₁
        exact absurd k₁ throw_eq_ok
  -- the argument is a path: the file is asked about before its error is looked at
  have hmagnet : isMagnet arg = false := by simpa using hmagnet
  rcases ite_eq_ok.mp k₁ with ⟨hexists, k₂⟩ | ⟨hexists, k₂⟩
  · obtain ⟨i, m₁, h₁, k₃⟩ := bind_eq_ok.mp k₂
    obtain ⟨es, hselects, hs₁⟩ := indexOfLargestFileInTorrentWithTorrentInfo_ok h₁
    obtain ⟨fe, m₂, h₂, k₄⟩ := bind_eq_ok.mp k₃
    obtain ⟨hfe, hm₂⟩ := orFault_eq_ok.mp h₂
    obtain ⟨_, m₃, h₃, k₅⟩ := bind_eq_ok.mp k₄
    obtain ⟨hlength, hm₃⟩ : _ ∧ m₃ = m₂ := by
      rcases whenever_eq_ok.mp h₃ with ⟨-, h⟩ | ⟨hlength, h⟩
      · exact absurd h throw_eq_ok
      · exact ⟨hlength, h⟩
    obtain ⟨_, m₄, h₄, k₆⟩ := bind_eq_ok.mp k₅
    replace h₄ := setMinPieces_eq_ok.mp h₄
    cases hparse : env.torrentFile arg with
    | error message =>
        rw [hparse] at hfe
        exact absurd (hfe.symm.trans (fileAt_invalid i)) (by simp)
    | ok ti =>
        rw [hparse] at hselects hfe hlength h₄ k₆
        obtain ⟨rfl, hm'⟩ := pure_eq_ok.mp k₆
        have hvalid : ti.Valid := ⟨TorrentInfo.files_ne_nil_of_fileAt hfe, Nat.pos_of_ne_zero hlength⟩
        refine Or.inl ⟨_, rfl, .file ⟨ti, hvalid⟩ i fe m₁.globals es hmagnet hexists hparse hselects
          hfe ?_ ?_⟩
        · rw [hm', h₄, hm₃, hm₂]
        · rw [hm', h₄, hm₃, hm₂, hs₁]
  · obtain ⟨rfl, hm⟩ := pure_eq_ok.mp k₂
    exact Or.inr ⟨hmagnet, by simpa using hexists, ⟨_, rfl⟩, hm⟩

/-- The folder of the download, if it is there or can be made. -/
def openedPath (env : Env) (md5 : Text) (directoryName : Option Text) : Option Text :=
  env.downloadDirectory.bind fun basePath =>
    let path := appendPathComponent basePath (directoryName.getD (md5.take 16))
    if env.fileExists path ∨ env.createDirectory path = none then some path else none

/-- A start that makes its folder has set the save path to it; one that fails may have. -/
theorem openSavePath_ok {env : Env} {md5 : Text} {directoryName : Option Text}
    {r : Except NSError Text} (hx : openSavePath env md5 directoryName m = .ok r m') :
    m'.globals = m.globals ∧ r.toOption = openedPath env md5 directoryName ∧
      ∃ path?, m'.streamer = { m.streamer with savePath := path? } ∧
        (∀ path, r = .ok path → path? = some path) ∧
        (path? = m.streamer.savePath ∨ path?.isSome) := by
  unfold openSavePath at hx
  cases hdir : env.downloadDirectory with
  | none =>
      rw [hdir] at hx
      obtain ⟨rfl, rfl⟩ := pure_eq_ok.mp hx
      exact ⟨rfl, by simp [openedPath, hdir, Except.toOption], m'.streamer.savePath, rfl, by simp,
        Or.inl rfl⟩
  | some basePath =>
      rw [hdir] at hx
      obtain ⟨_, m₁, h₁, k₁⟩ := bind_eq_ok.mp hx
      replace h₁ := modifies_eq_ok.mp h₁
      -- the save path is set before it is known whether the folder can be made
      have hm : m' = m₁ ∧ r.toOption = openedPath env md5 directoryName ∧ ∀ path, r = .ok path →
          path = appendPathComponent basePath (directoryName.getD (md5.take 16)) := by
        rcases ite_eq_ok.mp k₁ with ⟨hexists, k₂⟩ | ⟨hexists, k₂⟩
        · obtain ⟨rfl, hm⟩ := pure_eq_ok.mp k₂
          exact ⟨hm, by simp [openedPath, hdir, hexists, Except.toOption], by simp⟩
        · cases hcreate : env.createDirectory
              (appendPathComponent basePath (directoryName.getD (md5.take 16))) with
          | some error =>
              rw [hcreate] at k₂
              obtain ⟨rfl, hm⟩ := pure_eq_ok.mp k₂
              exact ⟨hm, by simp [openedPath, hdir, hexists, hcreate, Except.toOption], by simp⟩
          | none =>
              rw [hcreate] at k₂
              obtain ⟨rfl, hm⟩ := pure_eq_ok.mp k₂
              exact ⟨hm, by simp [openedPath, hdir, hcreate, Except.toOption], by simp⟩
      refine ⟨by rw [hm.1, h₁], hm.2.1, some (appendPathComponent basePath
        (directoryName.getD (md5.take 16))), by rw [hm.1, h₁], ?_, Or.inr rfl⟩
      intro path hr
      rw [hm.2.2 path hr]

/-- How `add_torrent` comes to a handle. -/
inductive Adds (tp : AddTorrentParams) (s : Streamer) : Nat → Streamer → Prop
  | found (t : Torrent) (ht : s.session.torrents.find? (·.infoHash = tp.hash) = some t) :
      Adds tp s t.handle (s.log [.found t.handle])
  | added (order : MapOrder) (hnew : s.session.torrents.find? (·.infoHash = tp.hash) = none) :
      Adds tp s s.session.nextHandle
        (s.withSession (s.session.insert order (tp.torrent s.session.nextHandle))
          [.added s.session.nextHandle])

theorem addTorrent_ok {env : Env} {tp : AddTorrentParams} {h : Nat}
    (hx : addTorrent env tp m = .ok (.ok h) m') :
    env.refusal tp = none ∧ m'.globals = m.globals ∧ Adds tp m.streamer h m'.streamer := by
  unfold addTorrent at hx
  cases herr : env.refusal tp with
  | some message =>
      rw [herr] at hx
      cases (pure_eq_ok.mp hx).1
  | none =>
      rw [herr] at hx
      obtain ⟨session, m₁, h₁, k₂⟩ := bind_eq_ok.mp hx
      obtain ⟨rfl, hm₁⟩ := gets_eq_ok.mp h₁
      -- a torrent with this info-hash is found, or one is added
      cases hfind : m.streamer.session.torrents.find? (·.infoHash = tp.hash) with
      | some t =>
          rw [hfind] at k₂
          obtain ⟨_, m₂, h₂, k₃⟩ := bind_eq_ok.mp k₂
          replace h₂ := emit_eq_ok.mp h₂
          obtain ⟨hh, hm'⟩ := pure_eq_ok.mp k₃
          obtain rfl : h = t.handle := Except.ok.inj hh
          rw [hm', h₂, hm₁]
          exact ⟨rfl, rfl, .found t hfind⟩
      | none =>
          rw [hfind] at k₂
          obtain ⟨h', m₂, h₂, k₃⟩ := bind_eq_ok.mp k₂
          obtain ⟨rfl, hm₂⟩ := gets_eq_ok.mp h₂
          obtain ⟨_, m₃, h₃, k₄⟩ := bind_eq_ok.mp k₃
          replace h₃ := modifies_eq_ok.mp h₃
          obtain ⟨hh, hm'⟩ := pure_eq_ok.mp k₄
          obtain rfl := Except.ok.inj hh
          rw [hm', h₃, hm₂, hm₁]
          exact ⟨rfl, rfl, .added env.order hfind⟩

/-- A start that stops half-way reports the error and cancels. -/
theorem failStart_ok {env : Env} {failure : Option BlockId} {error : NSError} {u : Unit}
    (hx : failStart env failure error m = .ok u m') :
    ∃ m₁ : Machine, m₁.globals = m.globals ∧
      m₁.streamer = m.streamer.log (failureEffects failure error) ∧
      cancelStreamingAndDeleteData env false m₁ = .ok () m' := by
  obtain ⟨_, m₁, h₁, k₁⟩ := bind_eq_ok.mp hx
  obtain ⟨hg, hs⟩ := callFailure_ok h₁
  exact ⟨m₁, hg, hs, k₁⟩

/-- The commands every torrent gets when it is added. -/
def addCommands : List TorrentCommand :=
  [.setSequentialDownload true, .setMaxConnections 60, .setMaxUploads 10]

/-- The streamer with its session resumed. -/
def Streamer.resumes (s : Streamer) : Streamer :=
  s.mapSession fun session => { session with paused := false }

/-- **What a start does from `add_torrent` on.** -/
theorem addAndResume_ok {env : Env} {arg : Text} {failure : Option BlockId}
    {tp : AddTorrentParams} {u : Unit} (hx : addAndResume env arg failure tp m = .ok u m') :
    ∃ (h : Nat) (s₁ : Streamer) (m₂ m₃ : Machine), Adds tp m.streamer h s₁ ∧
      env.refusal tp = none ∧
      m₂.globals = m.globals ∧ m₂.streamer = s₁.sent env h addCommands ∧
      ((isMagnet arg = true ∧ m₃ = m₂) ∨
        (isMagnet arg = false ∧ metadataReceivedAlert env h m₂ = .ok () m₃)) ∧
      m'.globals = m₃.globals ∧
      m'.streamer = m₃.streamer.resumes.dispatch (.networkActivityIndicator true) := by
  obtain ⟨th, m₁, h₁, k₁⟩ := bind_eq_ok.mp hx
  obtain ⟨h, m₂, h₂, k₂⟩ := bind_eq_ok.mp k₁
  obtain ⟨hth, hm₂⟩ := orFault_eq_ok.mp h₂
  cases th with
  | error message => cases hth
  | ok h' =>
      obtain rfl : h' = h := Option.some.inj hth
      obtain ⟨herr, hg₁, hadds⟩ := addTorrent_ok h₁
      -- the commands to the torrent that was added
      obtain ⟨_, m₃, h₃, k₃⟩ := bind_eq_ok.mp k₂
      replace h₃ := (send_eq_ok.mp h₃).2
      obtain ⟨_, m₄, h₄, k₄⟩ := bind_eq_ok.mp k₃
      replace h₄ := (send_eq_ok.mp h₄).2
      obtain ⟨_, m₅, h₅, k₅⟩ := bind_eq_ok.mp k₄
      replace h₅ := (send_eq_ok.mp h₅).2
      obtain ⟨_, m₆, h₆, k₆⟩ := bind_eq_ok.mp k₅
      obtain ⟨paused, m₇, h₇, k₇⟩ := bind_eq_ok.mp k₆
      obtain ⟨rfl, hm₇⟩ := gets_eq_ok.mp h₇
      obtain ⟨_, m₈, h₈, k₈⟩ := bind_eq_ok.mp k₇
      replace k₈ := dispatchMain_eq_ok.mp k₈
      -- resuming a session that is not paused changes nothing
      have hs₈ : m₈.streamer = m₆.streamer.resumes ∧ m₈.globals = m₆.globals := by
        rcases whenever_eq_ok.mp h₈ with ⟨-, h₈⟩ | ⟨hp, h₈⟩
        · rw [modifies_eq_ok.mp h₈, hm₇]
          exact ⟨rfl, rfl⟩
        · rw [h₈, hm₇]
          refine ⟨?_, rfl⟩
          have hp : m₆.streamer.session.paused = false := by simpa using hp
          simp only [Streamer.resumes, Streamer.mapSession, ← hp]
      refine ⟨h', m₁.streamer, m₅, m₆, hadds, herr, ?_, ?_, ?_, ?_, ?_⟩
      · rw [h₅, h₄, h₃, hm₂, hg₁]
      · rw [h₅, h₄, h₃, hm₂, sent_sent, sent_sent]
        rfl
      · rcases whenever_eq_ok.mp h₆ with ⟨hmagnet, h₆⟩ | ⟨hmagnet, h₆⟩
        · exact Or.inr ⟨by simpa using hmagnet, h₆⟩
        · exact Or.inl ⟨by simpa using hmagnet, h₆⟩
      · rw [k₈, hs₈.2]
      · rw [k₈, hs₈.1]

/-- **What a start does.** It finds no file, it finds no folder, or it gets as far as
`add_torrent`. -/
theorem startStreamingFromFileInDirectory_ok {env : Env} {arg : Text}
    {directoryName : Option Text} {progress readyToPlay failure : Option BlockId} {u : Unit}
    (hx : startStreamingFromFileInDirectory env arg directoryName progress readyToPlay failure m
      = .ok u m') :
    let m₀ := { m with streamer := m.streamer.acquire progress readyToPlay failure }
    (isMagnet arg = false ∧ env.fileExists arg = false ∧
      ∃ error, failStart env failure error m₀ = .ok () m') ∨
    (∃ tp md5 m₁, Loads env arg m₀ m₁ (tp, md5) ∧ openedPath env md5 directoryName = none ∧
      ∃ error path? m₂, m₂.globals = m₁.globals ∧
        m₂.streamer = { m₁.streamer with savePath := path? } ∧
        (path? = m.streamer.savePath ∨ path?.isSome) ∧
        failStart env failure error m₂ = .ok () m') ∨
    (∃ tp md5 m₁, Loads env arg m₀ m₁ (tp, md5) ∧
      ∃ path m₂, openedPath env md5 directoryName = some path ∧ m₂.globals = m₁.globals ∧
        m₂.streamer = { m₁.streamer with savePath := some path } ∧
        addAndResume env arg failure (finalParams env arg path tp) m₂ = .ok () m') := by
  intro m₀
  obtain ⟨_, m₁, h₁, k₁⟩ := bind_eq_ok.mp hx
  obtain rfl : m₁ = m₀ := modifies_eq_ok.mp h₁
  obtain ⟨loaded, m₂, h₂, k₂⟩ := bind_eq_ok.mp k₁
  rcases loadParams_ok h₂ with ⟨⟨tp, md5⟩, rfl, hloads⟩ | ⟨hfile, hmissing, ⟨error, rfl⟩, hm₂⟩
  · obtain ⟨opened, m₃, h₃, k₃⟩ := bind_eq_ok.mp k₂
    obtain ⟨hg₃, hopened, path?, hs₃, hpath, hkept⟩ := openSavePath_ok h₃
    cases opened with
    | error error =>
        refine Or.inr (Or.inl ⟨tp, md5, m₂, hloads, hopened.symm, error, path?, m₃, hg₃, hs₃, ?_,
          k₃⟩)
        -- reading the parameters does not touch the save path
        have hsave : m₂.streamer.savePath = m.streamer.savePath := by
          cases hloads with
          | magnet tp hmagnet hparse hm =>
              rw [hm]
              rfl
          | file md i fe g es hfile hexists hparse hselects hfe hg hs =>
              rw [hs]
              rfl
        rwa [← hsave]
    | ok path =>
        rw [hpath path rfl] at hs₃
        exact Or.inr (Or.inr ⟨tp, md5, m₂, hloads, path, m₃, hopened.symm, hg₃, hs₃, k₃⟩)
  · rw [hm₂] at k₂
    exact Or.inl ⟨hfile, hmissing, error, k₂⟩

/-! ## Fast forward -/

/-- The loop of `fastForwardTorrentForRange` answers `YES` exactly where it has a round to make and
finds the piece of each round. -/
theorem haveThrough_eq {env : Env} {h : Nat} {t : Torrent} {finalPiece j : Int} {k : Nat}
    (ht : m.streamer.session.find? h = some t) (hfinal : 0 < k → finalPiece = j + k - 1) :
    haveThrough env h finalPiece k j m =
      .ok (decide (0 < k) && (piecesFrom j k).all (t.has env)) m := by
  induction k generalizing j with
  | zero => rfl
  | succ k ih =>
      have hlast := hfinal (by omega)
      have hhave : havePiece env h j m = .ok (t.has env j) m :=
        havePiece_eq_ok.mpr ⟨t, ht, rfl, rfl⟩
      rw [haveThrough, bind_of_ok hhave, piecesFrom_succ, List.all_cons]
      cases hthere : t.has env j with
      | false => rfl
      | true =>
          rw [if_pos rfl, Bool.true_and]
          by_cases hj : j = finalPiece
          · -- the last round
            obtain rfl : k = 0 := by omega
            rw [if_pos hj]
            rfl
          · rw [if_neg hj, ih fun _ => by omega, decide_eq_true (by omega : 0 < k),
              decide_eq_true (by omega : 0 < k + 1)]

/-- The streamer after it mapped a requested range through file `i` of torrent `h`. -/
def Streamer.seeks (h : Nat) (i startPiece finalPiece : Int) (es : List Effect) (s : Streamer) :
    Streamer :=
  { s.log (es ++ [.mappedRange h i]) with firstPiece := startPiece, endPiece := finalPiece }

/-- The last piece a round asks for, of a torrent of `n` pieces. -/
def lastSought (startPiece minPieces : Int) (n : Nat) : Int :=
  if n < startPiece + minPieces - 1 then n - 1 else startPiece + minPieces - 1

/-- The answer to the question whether the pieces from `startPiece` to `finalPiece` are there. -/
def Torrent.hasThrough (env : Env) (t : Torrent) (startPiece finalPiece : Int) : Bool :=
  decide (startPiece ≤ finalPiece) &&
    t.hasAll env (piecesFrom startPiece (finalPiece - startPiece + 1).toNat)

/-- What a round of `fastForwardTorrentForRange` does up to the question whether the range is
there: it maps the range through the chosen file. -/
theorem seek_ok {env : Env} {location length h : Nat} {there : Bool}
    (hx : seek env location length h m = .ok there m') :
    ∃ t md i es, m.streamer.session.find? h = some t ∧ t.info = some md ∧
      Chooses m.globals m.streamer.selectionBlock (some md.val) i m'.globals es ∧ 0 ≤ i ∧
      let startPiece := (md.val.mapFile i.toNat location length).piece
      let finalPiece := lastSought startPiece m'.globals.minPieces md.val.numPieces
      there = t.hasThrough env startPiece finalPiece ∧
        m'.streamer = m.streamer.seeks h i startPiece finalPiece es := by
  obtain ⟨info, m₁, h₁, k₁⟩ := bind_eq_ok.mp hx
  obtain ⟨t, ht, rfl, hm₁⟩ := torrentFile_eq_ok.mp h₁
  obtain ⟨md, m₂, h₂, k₂⟩ := bind_eq_ok.mp k₁
  obtain ⟨hmd, hm₂⟩ := orFault_eq_ok.mp h₂
  obtain ⟨i, m₃, h₃, k₃⟩ := bind_eq_ok.mp k₂
  rw [hm₂, hm₁] at h₃
  obtain ⟨es, hchooses, hs₃⟩ := selectedFileIndexOrLargest_ok h₃ ht
  rw [hmd] at hchooses
  obtain ⟨_, m₄, h₄, k₄⟩ := bind_eq_ok.mp k₃
  replace h₄ := emit_eq_ok.mp h₄
  -- the range is mapped through the chosen file
  obtain ⟨request, m₅, h₅, k₅⟩ := bind_eq_ok.mp k₄
  obtain ⟨hi, rfl, hm₅⟩ := mapFile_eq_ok.mp h₅
  obtain ⟨min, m₆, h₆, k₆⟩ := bind_eq_ok.mp k₅
  obtain ⟨rfl, hm₆⟩ := getMinPieces_eq_ok.mp h₆
  obtain ⟨_, m₇, h₇, k₇⟩ := bind_eq_ok.mp k₆
  replace h₇ := modifies_eq_ok.mp h₇
  have hs₆ : m₆.streamer = m.streamer.log (es ++ [.mappedRange h i]) := by
    rw [hm₆, hm₅, h₄, hs₃]
    simp only [Streamer.log, List.append_assoc]
  have hg₅ : m₅.globals = m₃.globals := by rw [hm₅, h₄]
  have hg₇ : m₇.globals = m₃.globals := by rw [h₇, hm₆, hg₅]
  have ht₇ : m₇.streamer.session.find? h = some t := by
    rw [h₇, hs₆]
    exact ht
  rw [haveThrough_eq ht₇ fun _ => by omega] at k₇
  obtain ⟨hthere, rfl⟩ := EStateM.Result.ok.inj k₇
  refine ⟨t, md, i, es, ht, hmd, by rwa [hg₇], hi, ?_, ?_⟩
  · rw [hg₇, ← hg₅, ← hthere, Torrent.hasThrough, Torrent.hasAll, lastSought]
    congr 1
    simp only [decide_eq_decide]
    omega
  · rw [h₇, hs₆, hm₆, hg₅]
    rfl

/-- **What a round of `fastForwardTorrentForRange` does.** It maps the range through the
chosen file; where a piece is missing it moves the window there. -/
theorem fastForwardTorrent_ok {env : Env} {location length h : Nat} {r : Bool}
    (hx : fastForwardTorrent env location length h m = .ok r m') :
    ∃ t md i g es finalPiece, m.streamer.session.find? h = some t ∧ t.info = some md ∧
      Chooses m.globals m.streamer.selectionBlock (some md.val) i g es ∧ 0 ≤ i ∧
      let startPiece := (md.val.mapFile i.toNat location length).piece
      let s := m.streamer.seeks h i startPiece finalPiece es
      ((r = true ∧ m'.globals = g ∧ m'.streamer = s) ∨
        (r = false ∧ ∃ m₁ : Machine, m₁.globals = g ∧ m₁.streamer = s.requires [] ∧
          prioritizeNextPieces env h m₁ = .ok () m')) := by
  rw [fastForwardTorrent_eq] at hx
  obtain ⟨there, m₁, h₁, k₁⟩ := bind_eq_ok.mp hx
  obtain ⟨t, md, i, es, ht, hmd, hchooses, hi, -, hs₁⟩ := seek_ok h₁
  refine ⟨t, md, i, m₁.globals, es, lastSought (md.val.mapFile i.toNat location length).piece
    m₁.globals.minPieces md.val.numPieces, ht, hmd, hchooses, hi, ?_⟩
  rcases ite_eq_ok.mp k₁ with ⟨-, k₂⟩ | ⟨-, k₂⟩
  · obtain ⟨rfl, hm'⟩ := pure_eq_ok.mp k₂
    exact Or.inl ⟨rfl, by rw [hm'], by rw [hm', hs₁]⟩
  -- a piece is missing: the window is emptied and filled again from there
  · obtain ⟨_, m₂, h₂, k₃⟩ := bind_eq_ok.mp k₂
    replace h₂ := modifies_eq_ok.mp h₂
    obtain ⟨_, m₃, h₃, k₄⟩ := bind_eq_ok.mp k₃
    obtain ⟨rfl, hm'⟩ := pure_eq_ok.mp k₄
    refine Or.inr ⟨rfl, m₂, by rw [h₂], ?_, by rw [hm']; exact h₃⟩
    rw [h₂, hs₁]
    rfl

/-! ## The main queue -/

/-- What a block does when the main queue runs it: it calls the streamer's block of the time. -/
def Streamer.mainEffects (s : Streamer) : MainBlock → List Effect
  | .progress => s.progressBlock.toList.map (.calledProgress · s.torrentStatus)
  | .readyToPlay filePath => s.readyToPlayBlock.toList.map (.calledReadyToPlay · filePath)
  | .networkActivityIndicator _ => []

theorem runMainQueue_ok {u : Unit} (hx : runMainQueue m = .ok u m') :
    m'.globals = m.globals ∧
      ((m.streamer.mainQueue = [] ∧ m'.streamer = m.streamer) ∨
        ∃ b rest, m.streamer.mainQueue = b :: rest ∧
          m'.streamer = ({ m.streamer with mainQueue := rest } : Streamer).log
            (m.streamer.mainEffects b)) := by
  obtain ⟨queue, m₁, h₁, k₁⟩ := bind_eq_ok.mp hx
  obtain ⟨rfl, hm₁⟩ := gets_eq_ok.mp h₁
  cases hqueue : m.streamer.mainQueue with
  | nil =>
      rw [hqueue] at k₁
      rw [(pure_eq_ok.mp k₁).2, hm₁]
      exact ⟨rfl, Or.inl ⟨rfl, rfl⟩⟩
  | cons b rest =>
      rw [hqueue] at k₁
      obtain ⟨_, m₂, h₂, k₂⟩ := bind_eq_ok.mp k₁
      replace h₂ := modifies_eq_ok.mp h₂
      rw [hm₁] at h₂
      -- the block that is called is the streamer's of now, not of when it was queued
      have hm' : m'.globals = m₂.globals ∧ m'.streamer = m₂.streamer.log
          (m₂.streamer.mainEffects b) := by
        cases b with
        | progress =>
            obtain ⟨block, m₃, h₃, k₃⟩ := bind_eq_ok.mp k₂
            obtain ⟨rfl, hm₃⟩ := gets_eq_ok.mp h₃
            cases hblock : m₂.streamer.progressBlock with
            | none =>
                rw [hblock] at k₃
                rw [(pure_eq_ok.mp k₃).2, hm₃]
                simp [Streamer.mainEffects, hblock, log_nil]
            | some block =>
                rw [hblock] at k₃
                obtain ⟨st, m₄, h₄, k₄⟩ := bind_eq_ok.mp k₃
                obtain ⟨rfl, hm₄⟩ := gets_eq_ok.mp h₄
                rw [emit_eq_ok.mp k₄, hm₄, hm₃]
                simp [Streamer.mainEffects, hblock]
        | readyToPlay filePath =>
            obtain ⟨block, m₃, h₃, k₃⟩ := bind_eq_ok.mp k₂
            obtain ⟨rfl, hm₃⟩ := gets_eq_ok.mp h₃
            cases hblock : m₂.streamer.readyToPlayBlock with
            | none =>
                rw [hblock] at k₃
                rw [(pure_eq_ok.mp k₃).2, hm₃]
                simp [Streamer.mainEffects, hblock, log_nil]
            | some block =>
                rw [hblock] at k₃
                rw [emit_eq_ok.mp k₃, hm₃]
                simp [Streamer.mainEffects, hblock]
        | networkActivityIndicator visible =>
            rw [(pure_eq_ok.mp k₂).2]
            exact ⟨rfl, (log_nil _).symm⟩
      rw [h₂] at hm'
      refine ⟨hm'.1, Or.inr ⟨b, rest, rfl, ?_⟩⟩
      rw [hm'.2]
      cases b <;> rfl

/-! ## Events -/

/-- **What a multi-file start does** before it starts. -/
theorem startMulti_ok {env : Env} {arg : Text} {progress readyToPlay failure : Option BlockId}
    {callback : SelectionBlock} {u : Unit}
    (hx : step (.startMulti env arg progress readyToPlay failure callback) m = .ok u m') :
    ∃ m₁ : Machine, m₁.globals = { m.globals with shouldUserSelectFiles := true } ∧
      m₁.streamer = { m.streamer with selectionBlock := some callback } ∧
      step (.start env arg progress readyToPlay failure) m₁ = .ok u m' := by
  obtain ⟨_, m₁, h₁, k₁⟩ := bind_eq_ok.mp hx
  obtain ⟨_, m₂, h₂, k₂⟩ := bind_eq_ok.mp k₁
  replace h₁ := setShouldUserSelectFiles_eq_ok.mp h₁
  replace h₂ := modifies_eq_ok.mp h₂
  exact ⟨m₂, by rw [h₂, h₁], by rw [h₂, h₁], k₂⟩

/-- **What a pass of the alerts loop does.** -/
theorem alertsLoop_ok {batch : List (Env × Alert)} {u : Unit}
    (hx : step (.alertsLoop batch) m = .ok u m') :
    (m.streamer.alertsLoopActive = true ∧
      each (fun d : Env × Alert => dispatchAlert d.1 d.2) batch m = .ok u m') ∨
    (m.streamer.alertsLoopActive = false ∧ m' = m) := by
  obtain ⟨active, m₁, h₁, k₁⟩ := bind_eq_ok.mp hx
  obtain ⟨rfl, rfl⟩ := gets_eq_ok.mp h₁
  rcases ite_eq_ok.mp k₁ with ⟨hactive, k₂⟩ | ⟨hstopped, k₂⟩
  · exact Or.inl ⟨hactive, k₂⟩
  · exact Or.inr ⟨Bool.not_eq_true _ ▸ hstopped, (pure_eq_ok.mp k₂).2⟩

/-- **What a fast-forward does**: its loop goes over the torrents of the session. -/
theorem fastForwardTorrentForRange_ok {env : Env} {location length : Nat} {r : Bool}
    (hx : fastForwardTorrentForRange env location length m = .ok r m') :
    fastForwardLoop env location length (m.streamer.session.torrents.map (·.handle)) m =
      .ok r m' := by
  obtain ⟨ths, m₁, h₁, hloop⟩ := bind_eq_ok.mp hx
  obtain ⟨rfl, rfl⟩ := gets_eq_ok.mp h₁
  exact hloop

theorem fastForward_ok {env : Env} {location length : Nat} {u : Unit}
    (hx : step (.fastForward env location length) m = .ok u m') :
    ∃ r, fastForwardLoop env location length (m.streamer.session.torrents.map (·.handle)) m =
      .ok r m' := by
  obtain ⟨r, m₁, h₁, k₁⟩ := bind_eq_ok.mp hx
  obtain ⟨-, rfl⟩ := pure_eq_ok.mp k₁
  exact ⟨r, fastForwardTorrentForRange_ok h₁⟩

end BtDownloader
