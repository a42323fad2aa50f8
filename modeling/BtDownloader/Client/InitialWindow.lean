import BtDownloader.Client.Advance
import BtDownloader.Client.ChosenPieces

set_option autoImplicit false

/-! # The first window

The head loop and the tail loop of `metadataReceivedAlert` are independent, and neither looks at
the end of the file. Where 3% of the chosen file are a piece at least, the file has 34 pieces or
more, so that the two never meet.

* `beginsAtHead_iff`: from which states the first window is the head, and the next one follows it.
-/

namespace BtDownloader

open Program

variable {m m' : Machine} {env : Env} {h : Nat} {md : Metadata} {i : Int} {fe : FileEntry}

/-! ## What is claimed -/

/-- The last piece of file `i`, where the file is not empty. -/
def TorrentInfo.lastPieceOf (ti : TorrentInfo) (i : Nat) : Nat :=
  (ti.fileOffset i + ti.fileSize i - 1) / ti.pieceLength

/-- The pieces are the first `k` pieces of file `f` upwards and its ten last ones downwards, all
different, and all of them pieces of the torrent that the file overlaps. -/
structure HeadThenTail (md : Metadata) (f : Nat) (k : Int) (ps : List Int) : Prop where
  eq : ps = piecesFrom (md.val.firstPieceOf f) k.toNat ++ piecesDownFrom (md.val.lastPieceOf f) 10
  length : (ps.length : Int) = k + 10
  real : RealPieces md f ps

/-- The metadata alert leaves the head and the tail of file `i`; the element that
`prioritizeNextPieces` reads is the last piece of the head, and its first call makes the window
behind the head. -/
def Machine.BeginsAtHead (env : Env) (h : Nat) (md : Metadata) (i : Int) (fe : FileEntry)
    (m : Machine) : Prop :=
  ∃ m', metadataReceivedAlert env h m = .ok () m' ∧
    m'.globals.minPieces = md.val.minPieces fe ∧
    HeadThenTail md i.toNat (md.val.minPieces fe) m'.streamer.requiredPieces ∧
    elementAt m'.streamer.requiredPieces (m'.globals.minPieces - 1) =
      some (md.val.firstPieceOf i.toNat + md.val.minPieces fe - 1) ∧
    ∀ env', ∃ m'', prioritizeNextPieces env' h m' = .ok () m'' ∧
      m''.streamer.requiredPieces = windowFrom (md.val.firstPieceOf i.toNat + md.val.minPieces fe)
        (md.val.minPieces fe).toNat md.val.numPieces

/-! ## The shape of the window -/

/-- A file of which 3% are a piece has more than ten pieces. -/
theorem ten_le_spanned (hfe : md.val.fileAt i = some fe) (hmin : 1 ≤ md.val.minPieces fe) :
    10 ≤ md.val.piecesSpanned i.toNat := by
  have hlength := md.pieceLength_pos
  refine Extents.le_spanned hlength ?_
  rw [TorrentInfo.fileSize_of_fileAt hfe]
  have hpos : 1 ≤ 3 * fe.size / (100 * md.val.pieceLength) := by
    have hcast : md.val.minPieces fe = ((3 * fe.size / (100 * md.val.pieceLength) : Nat) : Int) :=
      rfl
    omega
  have hmul := (Nat.le_div_iff_mul_le (by omega)).mp hpos
  omega

theorem firstPieceOf_add_spanned (hsize : 0 < md.val.fileSize i.toNat) :
    md.val.firstPieceOf i.toNat + md.val.piecesSpanned i.toNat =
      md.val.lastPieceOf i.toNat + 1 :=
  Extents.spanned_of_pos hsize

/-- **The head and the tail of a file of which 3% are a piece.** -/
theorem headThenTail_headAndTail (hfe : md.val.fileAt i = some fe)
    (hmin : 1 ≤ md.val.minPieces fe) :
    HeadThenTail md i.toNat (md.val.minPieces fe) (headAndTail md.val i fe) := by
  have hten := ten_le_spanned hfe hmin
  have hi := TorrentInfo.lt_numFiles_of_fileAt hfe
  have hsize : 0 < md.val.fileSize i.toNat := by
    refine Nat.pos_of_ne_zero fun hzero => ?_
    rw [TorrentInfo.piecesSpanned, Extents.spanned, if_pos hzero] at hten
    omega
  have hlast : (md.val.mapFile i.toNat (fe.size - 1) 0).piece = md.val.lastPieceOf i.toNat := by
    have htail := @TorrentInfo.mapFile_last md.val i.toNat 0 hi hsize
    rw [TorrentInfo.fileSize_of_fileAt hfe] at htail
    have hspan := firstPieceOf_add_spanned hsize
    omega
  have heq : headAndTail md.val i fe =
      piecesFrom (md.val.firstPieceOf i.toNat) (md.val.minPieces fe).toNat ++
        piecesDownFrom (md.val.lastPieceOf i.toNat) 10 := by
    rw [headAndTail, TorrentInfo.mapFile_zero hi hsize, hlast]
  refine ⟨heq, ?_, ?_⟩
  · rw [heq, List.length_append, length_piecesFrom, piecesDownFrom, List.length_map,
      List.length_range]
    omega
  · have hreal := @real_headAndTail md i fe [] hfe fun fe' hfe' => ⟨hten, List.nodup_nil, by simp⟩
    simpa using hreal

/-! ## The alert and the call after it -/

theorem returns_alert (hs : m.streamer.Sound) (hknows : Knows h md m)
    (hchoice : m.choice? md.val = some i) (hfe : md.val.fileAt i = some fe) :
    Returns (metadataReceivedAlert env h) m := by
  obtain ⟨t, ht, hmd⟩ := hknows
  exact returns_metadataReceivedAlert ⟨t, ht⟩ (hs.isSome_savePath ht) fun _ =>
    ⟨md, answerExists_of_choice hchoice hfe, t, ht, hmd⟩

/-- The element that `prioritizeNextPieces` reads is the last piece of the head. -/
theorem Headed.elementAt (hm : Headed h md i fe m m') (hfe : md.val.fileAt i = some fe)
    (hmin : 1 ≤ md.val.minPieces fe) :
    elementAt m'.streamer.requiredPieces (m'.globals.minPieces - 1) =
      some (md.val.firstPieceOf i.toNat + md.val.minPieces fe - 1) := by
  have hcast : ((md.val.minPieces fe).toNat : Int) = md.val.minPieces fe :=
    Int.toNat_of_nonneg (by omega)
  have hhead := elementAt_piecesFrom (md.val.firstPieceOf i.toNat)
    (k := (md.val.minPieces fe).toNat) (by omega) (piecesDownFrom (md.val.lastPieceOf i.toNat) 10)
  rw [hcast] at hhead
  rw [hm.minPieces, hm.requiredPieces, (headThenTail_headAndTail hfe hmin).eq, hhead]

/-- The next call continues behind the head, or at a piece that a fast-forward has left. -/
theorem Headed.nextPiece? (hm : Headed h md i fe m m') (hfe : md.val.fileAt i = some fe)
    (hmin : 1 ≤ md.val.minPieces fe) :
    m'.nextPiece? = some (if m.streamer.firstPiece ≠ -1 then m.streamer.firstPiece
      else md.val.firstPieceOf i.toNat + md.val.minPieces fe) := by
  have helement := hm.elementAt hfe hmin
  have hne : m'.streamer.requiredPieces ≠ [] := by
    intro hnil
    rw [hnil] at helement
    unfold BtDownloader.elementAt at helement
    split at helement
    · cases helement
    · cases helement
  rw [Machine.nextPiece?, hm.firstPiece, helement, if_neg hne, Option.map_some]
  split
  · rfl
  · congr 1
    omega

/-- The window behind the head is not empty. -/
theorem head?_behindHead (hfe : md.val.fileAt i = some fe) (hmin : 1 ≤ md.val.minPieces fe) :
    (windowFrom (md.val.firstPieceOf i.toNat + md.val.minPieces fe) (md.val.minPieces fe).toNat
      md.val.numPieces).head? = some (md.val.firstPieceOf i.toNat + md.val.minPieces fe) := by
  have hroom := minPieces_add_ten_le hfe (ten_le_spanned hfe hmin)
  have hend := TorrentInfo.first_add_spanned_le md.property (TorrentInfo.lt_numFiles_of_fileAt hfe)
  refine head?_window fun hnil => ?_
  have hmem : (md.val.firstPieceOf i.toNat + md.val.minPieces fe : Int) ∈
      windowFrom (md.val.firstPieceOf i.toNat + md.val.minPieces fe) (md.val.minPieces fe).toNat
        md.val.numPieces := mem_windowFrom.mpr ⟨by omega, by omega, by omega⟩
  rw [hnil] at hmem
  cases hmem

/-- **The first window is the head of the file, and the next one follows it**, exactly from the
states in which no fast-forward has left another piece to continue at. -/
theorem beginsAtHead_iff (hm : Reachable m) (hknows : Knows h md m)
    (hempty : m.streamer.requiredPieces = []) (hroom : ¬ env.LowSpace h)
    (hchoice : m.choice? md.val = some i) (hfe : md.val.fileAt i = some fe)
    (hmin : 1 ≤ md.val.minPieces fe) :
    m.BeginsAtHead env h md i fe ↔ m.streamer.firstPiece = -1 ∨
      m.streamer.firstPiece = md.val.firstPieceOf i.toNat + md.val.minPieces fe := by
  have hshape := headThenTail_headAndTail hfe hmin
  constructor
  · rintro ⟨m', hx, -, -, -, hnext⟩
    obtain ⟨fe', hfe', hheaded⟩ := headed_of_alert hm.sound hknows hempty hroom hchoice hx
    obtain rfl := Option.some.inj (hfe.symm.trans hfe')
    obtain ⟨m'', hprioritize, hwindow⟩ := hnext env
    by_cases hfirst : m.streamer.firstPiece = -1
    · exact Or.inl hfirst
    · -- the window begins at `firstPiece`, and also behind the head
      have hpiece := hheaded.nextPiece? hfe hmin
      rw [if_pos hfirst] at hpiece
      have hcontinued := continued_of_next hheaded.knows hpiece hprioritize
      have hhead := head?_behindHead hfe hmin
      rw [← hwindow, hcontinued.requiredPieces, head?_window] at hhead
      · exact Or.inr (Option.some.inj hhead)
      · intro hnil
        rw [hnil] at hhead
        cases hhead
  · intro hfirst
    obtain ⟨_, m', hx⟩ := @returns_alert m env h md i fe hm.sound hknows hchoice hfe
    obtain ⟨fe', hfe', hheaded⟩ := headed_of_alert hm.sound hknows hempty hroom hchoice hx
    obtain rfl := Option.some.inj (hfe.symm.trans hfe')
    -- in both cases the next window begins behind the head
    have hpiece : m'.nextPiece? =
        some (md.val.firstPieceOf i.toNat + md.val.minPieces fe) := by
      rw [hheaded.nextPiece? hfe hmin]
      rcases hfirst with hnone | hbehind
      · rw [if_neg (not_not.mpr hnone)]
      · rw [hbehind, ite_self]
    refine ⟨m', hx, hheaded.minPieces, ?_, hheaded.elementAt hfe hmin, fun env' => ?_⟩
    · rw [hheaded.requiredPieces]
      exact hshape
    · obtain ⟨_, m'', hnext⟩ := returns_prioritizeNextPieces env' hheaded.sound hheaded.knows
        hpiece (by omega)
      refine ⟨m'', hnext, ?_⟩
      rw [(continued_of_next hheaded.knows hpiece hnext).requiredPieces, hheaded.minPieces]

/-- A film was downloaded, and a fast-forward has left its piece; then the metadata of a magnet
link arrives. -/
theorem not_beginsAtHead_afterFinish :
    ¬ ∀ (m : Machine) (env : Env) (h : Nat) (md : Metadata) (i : Int) (fe : FileEntry),
      Reachable m → Knows h md m → m.streamer.requiredPieces = [] → ¬ env.LowSpace h →
        m.choice? md.val = some i → md.val.fileAt i = some fe → 1 ≤ md.val.minPieces fe →
          m.BeginsAtHead env h md i fe := by
  intro hall
  let md := Metadata.films 2 40 []
  let env := Env.calm md fun _ => true
  have hstart : (finalState finishAndStartMagnet).map (fun m => (m.streamer.requiredPieces,
      m.choice? md.val, (m.streamer.session.find? 1).map (·.info))) =
        some ([], some 0, some (some md)) := by decide +kernel
  have hfinal : (((finalState finishAndStartMagnet).bind (Call.metadata env 1).after).bind
      (Call.nextPieces env 1).after).map (·.streamer.requiredPieces) = some [20] := by
    decide +kernel
  obtain ⟨m'', hm'', hwindow⟩ := Option.map_eq_some_iff.mp hfinal
  obtain ⟨m', hm', hnext⟩ := Option.bind_eq_some_iff.mp hm''
  obtain ⟨m, hm, hmeta⟩ := Option.bind_eq_some_iff.mp hm'
  rw [hm] at hstart
  obtain ⟨hempty, hchoice, t, ht, hinfo⟩ : m.streamer.requiredPieces = [] ∧
      m.choice? md.val = some 0 ∧ ∃ t, m.streamer.session.find? 1 = some t ∧
        t.info = some md := by simpa using hstart
  obtain ⟨m₁, hx, -, -, -, hbehind⟩ := hall m env 1 md 0 ⟨"0.mp4".toList, 40, false⟩
    (reachable_of_finalState hm) ⟨t, ht, hinfo⟩ hempty (by decide) hchoice (by decide) (by decide)
  obtain ⟨-, rfl⟩ := EStateM.Result.ok.inj (hx.symm.trans (Call.after_eq_some hmeta))
  obtain ⟨m₂, hprioritize, hwindow₂⟩ := hbehind env
  obtain ⟨-, rfl⟩ := EStateM.Result.ok.inj (hprioritize.symm.trans (Call.after_eq_some hnext))
  -- the window behind the head begins at piece `1`
  rw [hwindow] at hwindow₂
  exact absurd hwindow₂ (by decide)

/-- The metadata of a magnet link on a newly initialised streamer. -/
theorem beginsAtHead_newStreamer :
    let md := Metadata.films 2 100 []
    let env := Env.calm md fun _ => true
    ∃ m, finalState [.start env "magnet:b".toList none none none, .metadataArrives 0 md] = some m ∧
      m.BeginsAtHead env 0 md 0 ⟨"0.mp4".toList, 100, false⟩ := by
  intro md env
  let es : List Event := [.start env "magnet:b".toList none none none, .metadataArrives 0 md]
  have hstart : (finalState es).map (fun m => (m.streamer.requiredPieces, m.choice? md.val,
      (m.streamer.session.find? 0).map (·.info))) = some ([], some 0, some (some md)) := by
    decide +kernel
  have hfirst : (finalState es).map (·.streamer.firstPiece) = some (-1) := by decide +kernel
  obtain ⟨m, hm, hfirst⟩ := Option.map_eq_some_iff.mp hfirst
  rw [hm] at hstart
  obtain ⟨hempty, hchoice, t, ht, hinfo⟩ : m.streamer.requiredPieces = [] ∧
      m.choice? md.val = some 0 ∧ ∃ t, m.streamer.session.find? 0 = some t ∧
        t.info = some md := by simpa using hstart
  refine ⟨m, hm, ?_⟩
  exact (beginsAtHead_iff (reachable_of_finalState hm) ⟨t, ht, hinfo⟩ hempty (by decide) hchoice
    (by decide) (by decide)).mpr (Or.inl hfirst)

end BtDownloader
