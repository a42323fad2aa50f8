import BtDownloader.Client.Resources

set_option autoImplicit false

/-! # Resume data and the torrent asked for

A magnet link whose download folder exists takes its parameters from the resume data there.
The decoder's parameters replace those of the link also when the decoder reports an error.

* `start_eq_addAndResume`: with which parameters the start of a link goes to `add_torrent`.
* `keepsTorrent_iff`: exactly when these are parameters of the link's own torrent.
-/

namespace BtDownloader

open Program

variable {env : Env} {arg path : Text} {directoryName : Option Text} {tp : AddTorrentParams}

/-! ## The parameters of a start -/

theorem openSavePath_of_openedPath {md5 : Text}
    (hopened : openedPath env md5 directoryName = some path) (m : Machine) :
    openSavePath env md5 directoryName m =
      .ok (.ok path) { m with streamer := { m.streamer with savePath := some path } } := by
  unfold openedPath at hopened
  unfold openSavePath
  cases hdir : env.downloadDirectory with
  | none =>
      rw [hdir] at hopened
      cases hopened
  | some basePath =>
      rw [hdir] at hopened
      simp only [Option.bind_some] at hopened
      split at hopened
      · rename_i hthere
        obtain rfl := Option.some.inj hopened
        dsimp only
        rw [bind_of_ok (show modifies _ m = .ok () _ from rfl)]
        by_cases hexists :
            env.fileExists (appendPathComponent basePath (directoryName.getD (md5.take 16))) = true
        · rw [if_pos hexists]
          rfl
        · rw [if_neg hexists, hthere.resolve_left hexists]
          rfl
      · cases hopened

/-- **The start of a link that parses goes to `add_torrent` with `finalParams`**, in every state
of the streamer. -/
theorem start_eq_addAndResume {progress readyToPlay failure : Option BlockId} (m : Machine)
    (hmagnet : isMagnet arg = true) (hparse : env.parseMagnetUri arg = .ok tp)
    (hopened : openedPath env (env.md5 arg) directoryName = some path) :
    startStreamingFromFileInDirectory env arg directoryName progress readyToPlay failure m =
      addAndResume env arg failure (finalParams env arg path tp)
        { m with streamer :=
          { m.streamer.acquire progress readyToPlay failure with savePath := some path } } := by
  have hload : ∀ m₁, loadParams env arg m₁ = .ok (.ok (tp, env.md5 arg)) m₁ := by
    intro m₁
    unfold loadParams
    rw [if_pos hmagnet, hparse]
    rfl
  unfold startStreamingFromFileInDirectory
  rw [bind_of_ok (show modifies _ m = .ok () _ from rfl), bind_of_ok (hload _)]
  dsimp only
  rw [bind_of_ok (openSavePath_of_openedPath hopened _)]

/-! ## The link's own torrent -/

/-- The parameters as the code fills them in. -/
def AddTorrentParams.savedAt (tp : AddTorrentParams) (path : Text) : AddTorrentParams :=
  { tp with savePath := path, storageModeAllocate := true }

/-- The bytes of the resume file, which is looked for only in a folder that was there before. -/
def Env.resumeBytes? (env : Env) (path : Text) : Option (List UInt8) :=
  if env.fileExists path then env.resumeData (path ++ "/resumeData.fastresume".toList) else none

/-- The parameters that go to `add_torrent` are those of the link's torrent. -/
structure KeepsTorrent (env : Env) (path : Text) (link final : AddTorrentParams) : Prop where
  hash : final.hash = link.hash
  savePath : final.savePath = path
  storageMode : final.storageModeAllocate = true
  fallback : ∀ bytes message, env.resumeBytes? path = some bytes →
    (env.readResumeData bytes).2 = some message → final = link.savedAt path

/-- The resume data that is found, if any, can be read and names the link's torrent. (For a link
whose info-hash is all zero the data may also be unreadable, when what the decoder returns
happens to be the link's own parameters.) -/
def ResumeAgrees (env : Env) (path : Text) (link : AddTorrentParams) : Prop :=
  ∀ bytes, env.resumeBytes? path = some bytes →
    match (env.readResumeData bytes).2 with
    | none => (env.readResumeData bytes).1.hash = link.hash
    | some _ => link.hash = 0 ∧ (env.readResumeData bytes).1.savedAt path = link.savedAt path

theorem hash_savedAt (tp : AddTorrentParams) (path : Text) : (tp.savedAt path).hash = tp.hash := rfl

theorem finalParams_eq (hmagnet : isMagnet arg = true) :
    finalParams env arg path tp =
      match env.resumeBytes? path with
      | some bytes => (env.readResumeData bytes).1.savedAt path
      | none => tp.savedAt path := by
  unfold finalParams resumeParams Env.resumeBytes?
  rw [hmagnet, Bool.and_true]
  by_cases hexists : env.fileExists path = true
  · rw [if_pos hexists, if_pos hexists]
    cases env.resumeData (path ++ "/resumeData.fastresume".toList) with
    | none => rfl
    | some bytes => rfl
  · rw [if_neg hexists, if_neg hexists]
    rfl

/-- **Resume data keeps the torrent asked for exactly when it agrees with the link.** Of libtorrent
it is assumed that the parameters it returns with an error name no torrent. -/
theorem keepsTorrent_iff {final : AddTorrentParams} (hmagnet : isMagnet arg = true)
    (hparse : env.parseMagnetUri arg = .ok tp)
    (hopened : openedPath env (env.md5 arg) directoryName = some path)
    (hfinal : env.addParams? arg directoryName = some final)
    (hrejects : ∀ bytes message, (env.readResumeData bytes).2 = some message →
      (env.readResumeData bytes).1.hash = 0) :
    KeepsTorrent env path tp final ↔ ResumeAgrees env path tp := by
  have hfinal : final = match env.resumeBytes? path with
      | some bytes => (env.readResumeData bytes).1.savedAt path
      | none => tp.savedAt path := by
    rw [← finalParams_eq hmagnet]
    have hread : env.params? arg = some (tp, env.md5 arg) := by
      rw [Env.params?, if_pos hmagnet, hparse]
      rfl
    simp only [Env.addParams?, hread, hopened, Option.bind_eq_bind, Option.bind_some] at hfinal
    exact (Option.some.inj hfinal).symm
  constructor
  · intro hkeeps bytes hbytes
    rw [hbytes] at hfinal
    have hfinal : final = (env.readResumeData bytes).1.savedAt path := hfinal
    have hhash : (env.readResumeData bytes).1.hash = tp.hash := by
      rw [← hkeeps.hash, hfinal, hash_savedAt]
    -- a decoder that reports an error has given no info-hash
    cases herror : (env.readResumeData bytes).2 with
    | none => exact hhash
    | some message =>
        refine ⟨?_, ?_⟩
        · rw [← hhash, hrejects bytes message herror]
        · rw [← hfinal, hkeeps.fallback bytes message hbytes herror]
  · intro hagrees
    cases hbytes : env.resumeBytes? path with
    | none =>
        rw [hbytes] at hfinal
        have hfinal : final = tp.savedAt path := hfinal
        rw [hfinal]
        refine ⟨rfl, rfl, rfl, fun bytes message hb => ?_⟩
        rw [hbytes] at hb
        cases hb
    | some bytes =>
        rw [hbytes] at hfinal
        have hfinal : final = (env.readResumeData bytes).1.savedAt path := hfinal
        have hagrees := hagrees bytes hbytes
        cases herror : (env.readResumeData bytes).2 with
        | none =>
            rw [herror] at hagrees
            rw [hfinal]
            refine ⟨hagrees, rfl, rfl, fun bytes' message hb herr => ?_⟩
            obtain rfl := Option.some.inj (hbytes.symm.trans hb)
            rw [herror] at herr
            cases herr
        | some message =>
            rw [herror] at hagrees
            have hsame : final = tp.savedAt path := hfinal.trans hagrees.2
            rw [hsame]
            exact ⟨rfl, rfl, rfl, fun _ _ _ _ => rfl⟩

/-! ## A truncated resume file -/

/-- A link with info-hash `1`, whose folder holds the given bytes as resume data; the decoder
accepts only the byte `d`. -/
def Env.resuming (bytes : List UInt8) : Env :=
  { Env.calm (Metadata.films 1 40 []) fun _ => false with
    parseMagnetUri := fun _ => .ok { infoHash := 1 }
    resumeData := fun _ => some bytes
    readResumeData := fun bytes =>
      if bytes = [100] then ({ infoHash := 1 }, none) else ({}, some "unexpected end".toList) }

/-- The folder of every link that `Env.resuming` answers for. -/
def resumingFolder : Text := "files/0123456789abcdef".toList

/-- The empty file that an interrupted write leaves makes the link lose its torrent. -/
theorem not_keepsTorrent_truncated :
    ∃ final, (Env.resuming []).addParams? "magnet:?".toList none = some final ∧
      ¬ KeepsTorrent (.resuming []) resumingFolder { infoHash := 1 } final := by
  refine ⟨_, rfl, fun hkeeps => ?_⟩
  exact absurd hkeeps.hash (by decide)

/-- Resume data of the link's own torrent. -/
theorem keepsTorrent_whole :
    ∃ final, (Env.resuming [100]).addParams? "magnet:?".toList none = some final ∧
      KeepsTorrent (.resuming [100]) resumingFolder { infoHash := 1 } final := by
  refine ⟨_, rfl, (@keepsTorrent_iff (.resuming [100]) "magnet:?".toList resumingFolder none
    { infoHash := 1 } _ rfl rfl rfl rfl ?_).mpr ?_⟩
  · intro bytes message herror
    simp only [Env.resuming] at herror ⊢
    split at herror
    · cases herror
    · rename_i hne
      rw [if_neg hne]
      rfl
  · intro bytes hbytes
    obtain rfl := Option.some.inj (show some [100] = some bytes from hbytes)
    exact rfl

end BtDownloader
