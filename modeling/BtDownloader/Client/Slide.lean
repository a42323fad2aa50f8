import BtDownloader.Client.Requests
import BtDownloader.Client.Window

set_option autoImplicit false

/-! # The sliding window

`prioritizeNextPieces` continues where the window before it ended, or at the piece a
fast-forward has left in `firstPiece`. Between two fast-forwards the windows therefore lie one
behind the other, from the base on: the first piece of the chosen file, or the piece of the
fast-forward (`GapFree`).

* `gapFree_of_slides`: this holds in every run in which no piece left by an earlier run is
  taken for the next window, and no fast-forward ends at another torrent.
-/

namespace BtDownloader

open Program

variable {m m' : Machine} {env : Env} {h : Nat} {md : Metadata}

/-! ## Windows one behind the other -/

theorem piecesFrom_add (next : Int) (j k : Nat) :
    piecesFrom next (j + k) = piecesFrom next j ++ piecesFrom (next + j) k := by
  induction j generalizing next with
  | zero => simp [piecesFrom]
  | succ j ih =>
      have hnext : next + ((j + 1 : Nat) : Int) = next + 1 + j := by omega
      rw [Nat.succ_add_eq_add_succ, Nat.add_succ, piecesFrom_succ, ih, piecesFrom_succ, hnext,
        List.cons_append]

theorem windowFrom_add (next : Int) (j k n : Nat) :
    windowFrom next (j + k) n = windowFrom next j n ++ windowFrom (next + j) k n := by
  rw [windowFrom, piecesFrom_add, List.filter_append]
  rfl

/-- A window that ends inside the torrent is not cut. -/
theorem windowFrom_of_le {next : Int} {k n : Nat} (hle : next + k ≤ n) :
    windowFrom next k n = piecesFrom next k := by
  rw [windowFrom_eq, Nat.min_eq_left (by omega)]

/-- Element `MIN_PIECES - 1` of a list that starts with a whole window is its last piece. -/
theorem elementAt_piecesFrom (next : Int) {k : Nat} (hk : 0 < k) (rest : List Int) :
    elementAt (piecesFrom next k ++ rest) (k - 1) = some (next + k - 1) := by
  have hindex : ((k : Int) - 1).toNat = k - 1 := by omega
  have hlt : k - 1 < (piecesFrom next k).length := by simpa using hk
  rw [elementAt, if_pos (by omega), hindex, List.getElem?_append_left hlt]
  simp only [piecesFrom, List.getElem?_map]
  rw [List.getElem?_range (by omega), Option.map_some]
  congr 1
  omega

/-- The windows, of `k` pieces each, lie one behind the other from `base` on, as far as the
torrent of `n` pieces goes. -/
def Adjacent (base : Int) (k n : Nat) (ws : List (List Int)) : Prop :=
  ∀ (j : Nat) (w : List Int), ws[j]? = some w → base + j * k ≤ n → w = windowFrom (base + j * k) k n

theorem adjacent_nil (base : Int) (k n : Nat) : Adjacent base k n [] := by
  intro j w hw
  simp at hw

theorem Adjacent.concat {base : Int} {k n : Nat} {ws : List (List Int)} {w : List Int}
    (hws : Adjacent base k n ws)
    (hw : base + ws.length * k ≤ n → w = windowFrom (base + ws.length * k) k n) :
    Adjacent base k n (ws ++ [w]) := by
  intro j w' hw' hle
  by_cases hj : j < ws.length
  · rw [List.getElem?_append_left hj] at hw'
    exact hws j w' hw' hle
  · have hlt : j < (ws ++ [w]).length := (List.getElem?_eq_some_iff.mp hw').1
    obtain rfl : j = ws.length := by
      rw [List.length_append, List.length_singleton] at hlt
      omega
    rw [List.getElem?_concat_length] at hw'
    obtain rfl := Option.some.inj hw'
    exact hw hle

/-- Windows one behind the other make up one window. -/
theorem Adjacent.flatten {base : Int} {k n : Nat} {ws : List (List Int)}
    (hws : Adjacent base k n ws) (hlast : base + (ws.length - 1 : Nat) * k ≤ n) :
    ws.flatten = windowFrom base (ws.length * k) n := by
  induction ws using List.reverseRecOn with
  | nil => simp [windowFrom_zero]
  | append_singleton ws w ih =>
      rw [List.length_append, List.length_singleton, Nat.add_sub_cancel] at hlast
      have hw := hws ws.length w List.getElem?_concat_length hlast
      have hinit : ws.flatten = windowFrom base (ws.length * k) n := by
        refine ih (fun j w' hw' hle => ?_) ?_
        · have hj : j < ws.length := (List.getElem?_eq_some_iff.mp hw').1
          exact hws j w' (by rw [List.getElem?_append_left hj, hw']) hle
        · have hle : ((ws.length - 1 : Nat) : Int) * k ≤ ws.length * k :=
            Int.mul_le_mul_of_nonneg_right (by omega) (by omega)
          omega
      have hcast : base + (ws.length * k : Nat) = base + (ws.length : Int) * k := by push_cast; rfl
      calc (ws ++ [w]).flatten = ws.flatten ++ w := by simp
        _ = windowFrom base (ws.length * k) n ++ windowFrom (base + (ws.length * k : Nat)) k n := by
            rw [hinit, hw, hcast]
        _ = windowFrom base (ws.length * k + k) n := (windowFrom_add _ _ _ _).symm
        _ = windowFrom base ((ws ++ [w]).length * k) n := by
            rw [List.length_append, List.length_singleton, Nat.add_mul, Nat.one_mul]

/-! ## The head of the chosen file -/

/-- 3% of a file are no more pieces than it has. -/
theorem minPieces_le_spanned {i : Int} {fe : FileEntry} (hfe : md.val.fileAt i = some fe) :
    (md.val.minPieces fe).toNat ≤ md.val.piecesSpanned i.toNat := by
  have hlength := md.pieceLength_pos
  refine Extents.le_spanned hlength ?_
  rw [TorrentInfo.fileSize_of_fileAt hfe]
  show (((3 * fe.size / (100 * md.val.pieceLength) : Nat) : Int)).toNat * _ ≤ _
  rw [Int.toNat_natCast]
  have hmul := Nat.div_mul_le_self (3 * fe.size) (100 * md.val.pieceLength)
  have hcomm : 3 * fe.size / (100 * md.val.pieceLength) * (100 * md.val.pieceLength) =
      100 * (3 * fe.size / (100 * md.val.pieceLength) * md.val.pieceLength) := by ring
  omega

/-- The head that a metadata alert requires is the window from the first piece of the file on. -/
theorem head_eq_window {i : Int} {fe : FileEntry} (hfe : md.val.fileAt i = some fe)
    (hpos : 0 < md.val.minPieces fe) :
    piecesFrom (md.val.mapFile i.toNat 0 0).piece (md.val.minPieces fe).toNat =
      windowFrom (md.val.firstPieceOf i.toNat) (md.val.minPieces fe).toNat md.val.numPieces := by
  have hi := TorrentInfo.lt_numFiles_of_fileAt hfe
  have hspan := minPieces_le_spanned hfe
  have hfirst := TorrentInfo.first_add_spanned_le md.property hi
  have hsize : 0 < md.val.fileSize i.toNat := by
    rw [TorrentInfo.fileSize_of_fileAt hfe]
    refine Nat.pos_of_ne_zero fun hzero => ?_
    rw [TorrentInfo.minPieces, hzero, Nat.mul_zero, Nat.zero_div] at hpos
    exact absurd hpos (by decide)
  rw [TorrentInfo.mapFile_zero hi hsize, windowFrom_of_le (by omega)]

/-! ## The next window -/

theorem total_prioritizeLoop (k : Nat) {i : Int} (hi : 0 ≤ i) {ps : List Nat}
    (hps : ps.length = md.val.numPieces) :
    TotalTriple (Knows h md) (prioritizeLoop env h (some md) k i ps) fun _ => Knows h md := by
  induction k generalizing i ps with
  | zero => exact TotalTriple.pure fun _ hm => hm
  | succ k ih =>
      refine TotalTriple.bind (total_orFault rfl) fun md' => TotalTriple.assume fun hmd => ?_
      subst hmd
      intro m hm
      by_cases hlt : i < md'.val.numPieces
      · rw [if_pos hlt]
        have hset : setAt ps i priorityMaximum = some (ps.set i.toNat priorityMaximum) :=
          setAt_eq_some.mpr ⟨⟨hi, by omega⟩, rfl⟩
        refine TotalTriple.bind (total_orFault hset) (fun ps' => TotalTriple.assume fun hps' => ?_)
          m hm
        refine TotalTriple.bind total_send_knows fun _ => ?_
        refine TotalTriple.bind (total_modifies_knows _ fun _ => rfl) fun _ => ?_
        exact ih (by omega) (by rw [hps', List.length_set, hps])
      · rw [if_neg hlt]
        exact ih (by omega) hps m hm

/-- `prioritizeNextPieces` returns where it finds a piece to continue at. -/
theorem returns_prioritizeNextPieces {next : Int} (env : Env) (hs : m.streamer.Sound)
    (hknows : Knows h md m) (hnext : m.nextPiece? = some next) (hnonneg : 0 ≤ next) :
    Returns (prioritizeNextPieces env h) m := by
  rw [prioritizeNextPieces_eq]
  refine Returns.bind (returns_nextRequiredPiece hnext) fun next' m₁ h₁ => ?_
  obtain ⟨hnext', -, hs₁⟩ := nextRequiredPiece_ok h₁
  obtain rfl := Option.some.inj (hnext'.symm.trans hnext)
  have hknows₁ : Knows h md m₁ := by
    unfold Knows
    rw [hs₁]
    exact hknows
  have hsized : ∀ t, m₁.streamer.session.find? h = some t → t.Sized := fun t ht =>
    (hs.wanted t (Session.find?_mem (by rwa [hs₁] at ht))).1
  refine Returns.bind ⟨(), _, rfl⟩ fun _ m₂ h₂ => ?_
  replace h₂ := modifies_eq_ok.mp h₂
  obtain ⟨t, ht, hmd⟩ := hknows₁
  have ht₂ : m₂.streamer.session.find? h = some t := by
    rw [h₂]
    exact ht
  refine Returns.bind ⟨_, m₂, piecePriorities_eq_ok.mpr ⟨t, ht₂, rfl, rfl⟩⟩ fun ps m₃ h₃ => ?_
  obtain ⟨t', ht', rfl, hm₃⟩ := piecePriorities_eq_ok.mp h₃
  obtain rfl := Option.some.inj (ht'.symm.trans ht₂)
  -- the table of priorities has an entry for every piece, so no raised piece misses it
  have hlength : (t'.piecePriorities.map fun _ => priorityLow).length = md.val.numPieces := by
    rw [List.length_map, hsized t' ht md hmd]
  refine TotalTriple.returns ?_ (show Knows h md m₃ by rw [hm₃]; exact ⟨t', ht₂, hmd⟩)
    (Q := fun _ => Knows h md)
  refine TotalTriple.bind total_torrentFile fun info => TotalTriple.assume fun hinfo => ?_
  subst hinfo
  refine TotalTriple.bind total_send_knows fun _ => ?_
  refine TotalTriple.bind (total_getMinPieces) fun k => ?_
  exact TotalTriple.bind (total_prioritizeLoop k.toNat hnonneg hlength) fun _ => total_send_knows

/-- What a call of `prioritizeNextPieces` that continues at `next` leaves. -/
structure Continued (h : Nat) (md : Metadata) (next : Int) (m m' : Machine) : Prop where
  minPieces : m'.globals.minPieces = m.globals.minPieces
  firstPiece : m'.streamer.firstPiece = -1
  requiredPieces : m'.streamer.requiredPieces =
    windowFrom next m.globals.minPieces.toNat md.val.numPieces
  knows : Knows h md m'

theorem continued_of_next {next : Int} {u : Unit} (hknows : Knows h md m)
    (hnext : m.nextPiece? = some next) (hx : prioritizeNextPieces env h m = .ok u m') :
    Continued h md next m m' := by
  obtain ⟨t, ht, hmd⟩ := hknows
  obtain ⟨next', t', ps, hnext', ht', -, -, hg, hs'⟩ := prioritizeNextPieces_ok hx
  obtain rfl := Option.some.inj (hnext'.symm.trans hnext)
  obtain rfl := Option.some.inj (ht'.symm.trans ht)
  have hpieces : t'.numPieces = md.val.numPieces := by
    rw [Torrent.numPieces, hmd]
    rfl
  have hsession := congrArg Streamer.session hs'
  refine ⟨by rw [hg], by rw [hs'], by rw [hs', hpieces], _, find?_of_sent hsession ht, ?_⟩
  rw [Torrent.applyAll_info, hmd]

theorem minPieces_next {u : Unit} (hx : prioritizeNextPieces env h m = .ok u m') :
    m'.globals.minPieces = m.globals.minPieces := by
  obtain ⟨next, t', ps, -, -, -, -, hg', -⟩ := prioritizeNextPieces_ok hx
  rw [hg']

/-- A call for any torrent keeps what is known of torrent `h`. -/
theorem knows_next {h' : Nat} {u : Unit} (hknows : Knows h md m)
    (hx : prioritizeNextPieces env h' m = .ok u m') : Knows h md m' := by
  obtain ⟨next, t', ps, -, -, -, -, -, hs'⟩ := prioritizeNextPieces_ok hx
  unfold Knows
  rw [hs']
  by_cases hh : h = h'
  · subst hh
    exact hknows.sent
  · obtain ⟨t, ht, hmd⟩ := hknows
    refine ⟨t, ?_, hmd⟩
    refine (find?_sent _ _ _ _ _).trans ?_
    rw [if_neg hh]
    exact ht

/-! ## Fast-forwards -/

/-- The piece that a round of a fast-forward for torrent `h` starts at. -/
def startPiece (env : Env) (location length h : Nat) (m : Machine) : Int :=
  match seek env location length h m with
  | .ok _ m' => m'.streamer.firstPiece
  | .error _ m' => m'.streamer.firstPiece

/-- The last round of a fast-forward over the torrents `hs`: its torrent and its piece. -/
def lastRound (env : Env) (location length : Nat) : List Nat → Machine → Option (Nat × Int)
  | [], _ => none
  | h :: hs, m =>
      match fastForwardTorrent env location length h m with
      | .ok true _ => some (h, startPiece env location length h m)
      | .ok false m' =>
          (lastRound env location length hs m').or (some (h, startPiece env location length h m))
      | .error _ _ => none

/-- A round leaves its piece in `firstPiece`, or, where it misses, the window from there on. -/
structure Sought (h : Nat) (md : Metadata) (piece : Int) (r : Bool) (m m' : Machine) : Prop where
  nonneg : 0 ≤ piece
  minPieces : m'.globals.minPieces = m.globals.minPieces
  knows : Knows h md m'
  hit : r = true → m'.streamer.firstPiece = piece
  miss : r = false → m'.streamer.requiredPieces =
    windowFrom piece m.globals.minPieces.toNat md.val.numPieces

theorem sought_of_round {location length : Nat} {r : Bool} (hknows : Knows h md m)
    (hx : fastForwardTorrent env location length h m = .ok r m') :
    Sought h md (startPiece env location length h m) r m m' := by
  rw [fastForwardTorrent_eq] at hx
  obtain ⟨there, m₁, hseek, hrest⟩ := bind_eq_ok.mp hx
  obtain ⟨t, md', i, es, ht, hmd', hchooses, -, -, hs₁⟩ := seek_ok hseek
  have hpiece : startPiece env location length h m = m₁.streamer.firstPiece := by
    rw [startPiece, hseek]
  have hnonneg : 0 ≤ m₁.streamer.firstPiece := by
    rw [hs₁]
    exact (TorrentInfo.mapFile_piece_bounds md'.property i.toNat (Int.natCast_nonneg location)).1
  have hknows₁ : Knows h md m₁ := by
    unfold Knows
    rw [hs₁]
    exact hknows
  rw [hpiece]
  rcases ite_eq_ok.mp hrest with ⟨-, hrest⟩ | ⟨-, hrest⟩
  · obtain ⟨rfl, rfl⟩ := pure_eq_ok.mp hrest
    exact ⟨hnonneg, hchooses.minPieces, hknows₁, fun _ => rfl,
      fun hfalse => absurd hfalse (by decide)⟩
  -- a piece is missing: the window starts at the piece of the range
  · obtain ⟨_, m₂, h₂, hrest⟩ := bind_eq_ok.mp hrest
    replace h₂ := modifies_eq_ok.mp h₂
    obtain ⟨_, m₃, hnext, hrest⟩ := bind_eq_ok.mp hrest
    obtain ⟨rfl, rfl⟩ := pure_eq_ok.mp hrest
    have hfirst₂ : m₂.streamer.firstPiece = m₁.streamer.firstPiece := by rw [h₂]
    have hmin₂ : m₂.globals.minPieces = m.globals.minPieces := by rw [h₂, hchooses.minPieces]
    have hnext₂ : m₂.nextPiece? = some m₁.streamer.firstPiece := by
      rw [Machine.nextPiece?, hfirst₂, if_pos (by omega)]
    have hknows₂ : Knows h md m₂ := by
      rw [h₂]
      exact hknows₁
    have hcontinued := continued_of_next hknows₂ hnext₂ hnext
    refine ⟨hnonneg, by rw [hcontinued.minPieces, hmin₂], hcontinued.knows,
      fun htrue => absurd htrue (by decide), fun _ => ?_⟩
    rw [hcontinued.requiredPieces, hmin₂]

theorem minPieces_round {location length : Nat} {r : Bool}
    (hx : fastForwardTorrent env location length h m = .ok r m') :
    m'.globals.minPieces = m.globals.minPieces := by
  obtain ⟨t, md', i, g, es, last, -, -, hchooses, -, ⟨-, hg', -⟩ | ⟨-, m₁, hg₁, -, hnext⟩⟩ :=
    fastForwardTorrent_ok hx
  · rw [hg', hchooses.minPieces]
  · rw [minPieces_next hnext, hg₁, hchooses.minPieces]

/-- A round for any torrent keeps what is known of torrent `h`. -/
theorem knows_round {location length h' : Nat} {r : Bool} (hknows : Knows h md m)
    (hx : fastForwardTorrent env location length h' m = .ok r m') : Knows h md m' := by
  obtain ⟨t, md', i, g, es, last, -, -, -, -, ⟨-, -, hs'⟩ | ⟨-, m₁, -, hs₁, hnext⟩⟩ :=
    fastForwardTorrent_ok hx
  · unfold Knows
    rw [hs']
    exact hknows
  · refine knows_next ?_ hnext
    unfold Knows
    rw [hs₁]
    exact hknows

theorem minPieces_loop {location length : Nat} {hs : List Nat} {r : Bool}
    (hx : fastForwardLoop env location length hs m = .ok r m') :
    m'.globals.minPieces = m.globals.minPieces := by
  induction hs generalizing m with
  | nil => rw [(pure_eq_ok.mp hx).2]
  | cons h hs ih =>
      obtain ⟨there, m₁, hround, hrest⟩ := bind_eq_ok.mp hx
      rcases ite_eq_ok.mp hrest with ⟨-, hrest⟩ | ⟨-, hrest⟩
      · rw [(pure_eq_ok.mp hrest).2, minPieces_round hround]
      · rw [ih hrest, minPieces_round hround]

theorem minPieces_fastForward {location length : Nat} {r : Bool}
    (hx : fastForwardTorrentForRange env location length m = .ok r m') :
    m'.globals.minPieces = m.globals.minPieces := by
  have hloop := fastForwardTorrentForRange_ok hx
  exact minPieces_loop hloop

/-- A fast-forward over some torrent that returns has a last round. -/
theorem eq_nil_of_lastRound {location length : Nat} {hs : List Nat} {r : Bool}
    (hx : fastForwardLoop env location length hs m = .ok r m')
    (hlast : lastRound env location length hs m = none) : hs = [] := by
  cases hs with
  | nil => rfl
  | cons h hs =>
      obtain ⟨there, m₁, hround, -⟩ := bind_eq_ok.mp hx
      rw [lastRound, hround] at hlast
      cases there with
      | true => cases hlast
      | false => simp at hlast

/-- **A fast-forward** leaves what its last round leaves. -/
theorem sought_of_loop {location length : Nat} {hs : List Nat} {piece : Int} {r : Bool}
    (hknows : Knows h md m) (hx : fastForwardLoop env location length hs m = .ok r m')
    (hlast : lastRound env location length hs m = some (h, piece)) : Sought h md piece r m m' := by
  induction hs generalizing m with
  | nil => cases hlast
  | cons h' hs ih =>
      obtain ⟨there, m₁, hround, hrest⟩ := bind_eq_ok.mp hx
      rw [lastRound, hround] at hlast
      cases there with
      | true =>
          obtain ⟨rfl, rfl⟩ := pure_eq_ok.mp hrest
          obtain ⟨rfl, rfl⟩ := Prod.mk.injEq .. ▸ Option.some.inj hlast
          exact sought_of_round hknows hround
      | false =>
          have hknows₁ := knows_round hknows hround
          have hmin₁ := minPieces_round hround
          dsimp only at hlast
          cases hrounds : lastRound env location length hs m₁ with
          | some last =>
              rw [hrounds] at hlast
              obtain rfl := Option.some.inj hlast
              obtain ⟨hnonneg, hmin, hk, hhit, hmiss⟩ := ih hknows₁ hrest hrounds
              rw [hmin₁] at hmin hmiss
              exact ⟨hnonneg, hmin, hk, hhit, hmiss⟩
          | none =>
              -- this round is the last one
              rw [hrounds] at hlast
              obtain ⟨rfl, rfl⟩ := Prod.mk.injEq .. ▸ Option.some.inj hlast
              obtain rfl := eq_nil_of_lastRound hrest hrounds
              obtain ⟨rfl, rfl⟩ := pure_eq_ok.mp hrest
              exact sought_of_round hknows hround

/-! ## Runs of windows -/

/-- The runs of a torrent `h` with metadata `md` from a metadata alert on, with the base of the
windows and the windows since then. `C` is asked of the state and the windows before a call of
`prioritizeNextPieces`, `F` of the torrent of the last round of a fast-forward; in between
anything can happen that leaves the windows alone. -/
inductive Slides (C : Machine → List (List Int) → Prop) (F : Nat → Prop) (h : Nat)
    (md : Metadata) : Machine → Int → List (List Int) → Prop
  | handled {m m' : Machine} {env : Env} {i : Int} (hs : m.streamer.Sound) (hknows : Knows h md m)
      (hempty : m.streamer.requiredPieces = []) (hroom : ¬ env.LowSpace h)
      (hchoice : m.choice? md.val = some i) (hx : metadataReceivedAlert env h m = .ok () m') :
      Slides C F h md m' (md.val.firstPieceOf i.toNat)
        [m'.streamer.requiredPieces.take m'.globals.minPieces.toNat]
  | next {m m' : Machine} {env : Env} {base : Int} {ws : List (List Int)}
      (hm : Slides C F h md m base ws) (hc : C m ws)
      (hx : prioritizeNextPieces env h m = .ok () m') :
      Slides C F h md m' base (ws ++ [m'.streamer.requiredPieces])
  | hit {m m' : Machine} {env : Env} {location length h' : Nat} {base piece : Int}
      {ws : List (List Int)} (hm : Slides C F h md m base ws)
      (hx : fastForwardTorrentForRange env location length m = .ok true m')
      (hlast : lastRound env location length (m.streamer.session.torrents.map (·.handle)) m =
        some (h', piece)) (hf : F h') : Slides C F h md m' piece []
  | miss {m m' : Machine} {env : Env} {location length h' : Nat} {base piece : Int}
      {ws : List (List Int)} (hm : Slides C F h md m base ws)
      (hx : fastForwardTorrentForRange env location length m = .ok false m')
      (hlast : lastRound env location length (m.streamer.session.torrents.map (·.handle)) m =
        some (h', piece)) (hf : F h') : Slides C F h md m' piece [m'.streamer.requiredPieces]
  | elsewhere {m m' : Machine} {base : Int} {ws : List (List Int)}
      (hm : Slides C F h md m base ws) (hsame : m.streamer.SameRequests m'.streamer)
      (hfirst : m'.streamer.firstPiece = m.streamer.firstPiece)
      (hmin : m'.globals.minPieces = m.globals.minPieces) : Slides C F h md m' base ws

/-- **The windows are free of gaps**: one behind the other from the base on, they make up one
window, as far as the torrent goes. -/
structure GapFree (md : Metadata) (base : Int) (ws : List (List Int)) (m : Machine) : Prop where
  adjacent : Adjacent base m.globals.minPieces.toNat md.val.numPieces ws
  whole : base + (ws.length - 1 : Nat) * m.globals.minPieces.toNat ≤ md.val.numPieces →
    ws.flatten = windowFrom base (ws.length * m.globals.minPieces.toNat) md.val.numPieces

/-- No piece of an earlier fast-forward is taken for the window behind `ws`. -/
def Continues (m : Machine) (ws : List (List Int)) : Prop := ws ≠ [] → m.streamer.firstPiece = -1

/-- The invariant of a run: where the window behind `ws` starts can be read off the streamer. -/
structure Machine.Sliding (h : Nat) (md : Metadata) (base : Int) (ws : List (List Int))
    (m : Machine) : Prop where
  sound : m.streamer.Sound
  knows : Knows h md m
  nonneg : 0 ≤ base
  adjacent : Adjacent base m.globals.minPieces.toNat md.val.numPieces ws
  hit : ws = [] → m.streamer.firstPiece = base
  last : ∀ w ∈ ws.getLast?, ∃ rest, m.streamer.requiredPieces = w ++ rest

theorem Machine.Sliding.nextPiece {base : Int} {ws : List (List Int)} (hm : m.Sliding h md base ws)
    (hmin : 1 ≤ m.globals.minPieces) (hc : Continues m ws)
    (hle : base + ws.length * m.globals.minPieces.toNat ≤ md.val.numPieces) :
    m.nextPiece? = some (base + ws.length * m.globals.minPieces.toNat) := by
  have hnonneg := hm.nonneg
  rw [Machine.nextPiece?]
  cases ws using List.reverseRecOn with
  | nil =>
      -- no window yet: the fast-forward has left its piece
      rw [if_pos (by rw [hm.hit rfl]; omega), hm.hit rfl]
      simp
  | append_singleton ws w =>
      have hfirst := hc (by simp)
      obtain ⟨rest, hrest⟩ := hm.last w (by simp)
      rw [List.length_append, List.length_singleton] at hle ⊢
      have hmul : ((ws.length + 1 : Nat) : Int) * m.globals.minPieces.toNat =
          ws.length * m.globals.minPieces.toNat + m.globals.minPieces.toNat := by
        push_cast
        ring
      rw [hmul] at hle ⊢
      -- the last window is full, and its last piece is the element that is read
      have hw := hm.adjacent ws.length w List.getElem?_concat_length (by omega)
      have hpieces : w = piecesFrom (base + ws.length * m.globals.minPieces.toNat)
          m.globals.minPieces.toNat := by rw [hw, windowFrom_of_le (by omega)]
      have hne : m.streamer.requiredPieces ≠ [] := by
        rw [hrest, hpieces]
        intro hnil
        have hlength := congrArg List.length hnil
        rw [List.length_append, length_piecesFrom, List.length_nil] at hlength
        omega
      have hcast : m.globals.minPieces - 1 = (m.globals.minPieces.toNat : Int) - 1 := by omega
      rw [if_neg (by rw [hfirst]; simp), if_neg hne, hrest, hpieces, hcast,
        elementAt_piecesFrom _ (by omega), Option.map_some]
      congr 1
      omega

/-- What a metadata alert that finds room leaves, where nothing is required before it. -/
structure Headed (h : Nat) (md : Metadata) (i : Int) (fe : FileEntry) (m m' : Machine) : Prop where
  sound : m'.streamer.Sound
  knows : Knows h md m'
  minPieces : m'.globals.minPieces = md.val.minPieces fe
  requiredPieces : m'.streamer.requiredPieces = headAndTail md.val i fe
  firstPiece : m'.streamer.firstPiece = m.streamer.firstPiece

theorem headed_of_alert {i : Int} {u : Unit} (hs : m.streamer.Sound) (hknows : Knows h md m)
    (hempty : m.streamer.requiredPieces = []) (hroom : ¬ env.LowSpace h)
    (hchoice : m.choice? md.val = some i) (hx : metadataReceivedAlert env h m = .ok u m') :
    ∃ fe, md.val.fileAt i = some fe ∧ Headed h md i fe m m' := by
  have hsound := sound_metadataReceivedAlert hs hx
  obtain ⟨-, -, ⟨hlow, -⟩ | ⟨-, m₁, hg₁, hs₁, hselect⟩⟩ := metadataReceivedAlert_ok hx
  · exact absurd hlow hroom
  obtain ⟨t, md', i', g, es, fe, ht, hmd', hselects, hfe, hg, hs'⟩ := selectFile_ok hselect
  obtain ⟨t₀, ht₀, hmd₀⟩ := hknows
  obtain rfl : t = t₀ := by
    rw [hs₁] at ht
    exact Option.some.inj (ht.symm.trans ht₀)
  obtain rfl := Option.some.inj (hmd'.symm.trans hmd₀)
  have hsame : m₁.choice? md'.val = m.choice? md'.val := choice?_congr hg₁ (by rw [hs₁]; rfl)
  obtain rfl := Option.some.inj (hchoice.symm.trans (hsame.symm.trans hselects.choice))
  have hsession := congrArg Streamer.session hs'
  refine ⟨fe, hfe, hsound, ?_, by rw [hg], ?_, ?_⟩
  · exact ⟨_, find?_of_sent hsession ht, by rw [Torrent.applyAll_info, hmd']⟩
  · rw [hs', hs₁]
    show m.streamer.requiredPieces ++ _ = _
    rw [hempty, List.nil_append]
  · rw [hs', hs₁]
    rfl

/-- After a metadata alert the head of the chosen file is the first window. -/
theorem sliding_handled {i : Int} {u : Unit} (hs : m.streamer.Sound) (hknows : Knows h md m)
    (hempty : m.streamer.requiredPieces = []) (hroom : ¬ env.LowSpace h)
    (hchoice : m.choice? md.val = some i) (hx : metadataReceivedAlert env h m = .ok u m')
    (hpos : 1 ≤ m'.globals.minPieces) :
    m'.Sliding h md (md.val.firstPieceOf i.toNat)
      [m'.streamer.requiredPieces.take m'.globals.minPieces.toNat] := by
  obtain ⟨fe, hfe, hheaded⟩ := headed_of_alert hs hknows hempty hroom hchoice hx
  have hhead : m'.streamer.requiredPieces.take m'.globals.minPieces.toNat =
      windowFrom (md.val.firstPieceOf i.toNat) m'.globals.minPieces.toNat md.val.numPieces := by
    rw [hheaded.minPieces] at hpos ⊢
    rw [hheaded.requiredPieces, headAndTail, List.take_left' (length_piecesFrom _ _),
      head_eq_window hfe (by omega)]
  refine ⟨hheaded.sound, hheaded.knows, Int.natCast_nonneg _, ?_,
    fun hnil => absurd hnil (by simp), fun w hw => ?_⟩
  · refine (adjacent_nil _ _ _).concat fun _ => ?_
    rw [hhead]
    simp
  · obtain rfl : _ = w := Option.some.inj hw
    exact ⟨_, (List.take_append_drop _ _).symm⟩

theorem Machine.Sliding.next {base : Int} {ws : List (List Int)} {u : Unit}
    (hm : m.Sliding h md base ws) (hmin : 1 ≤ m.globals.minPieces) (hc : Continues m ws)
    (hx : prioritizeNextPieces env h m = .ok u m') :
    m'.Sliding h md base (ws ++ [m'.streamer.requiredPieces]) := by
  have hmin' := minPieces_next hx
  refine ⟨sound_prioritizeNextPieces hm.sound hx, knows_next hm.knows hx, hm.nonneg, ?_, ?_,
    fun w hw => ?_⟩
  · rw [hmin']
    refine hm.adjacent.concat fun hle => ?_
    exact (continued_of_next hm.knows (hm.nextPiece hmin hc hle) hx).requiredPieces
  · intro hnil
    simp at hnil
  · rw [List.getLast?_concat] at hw
    exact ⟨[], by rw [← Option.some.inj hw, List.append_nil]⟩

/-- A fast-forward whose last round is for torrent `h` starts the windows afresh. -/
theorem sliding_fastForward {base piece : Int} {ws : List (List Int)} {location length : Nat}
    {r : Bool} (hm : m.Sliding h md base ws)
    (hx : fastForwardTorrentForRange env location length m = .ok r m')
    (hlast : lastRound env location length (m.streamer.session.torrents.map (·.handle)) m =
      some (h, piece)) :
    m'.Sliding h md piece (if r then [] else [m'.streamer.requiredPieces]) := by
  have hloop := fastForwardTorrentForRange_ok hx
  have hsound := sound_fastForwardLoop hm.sound hloop
  obtain ⟨hnonneg, hmin, hknows, hhit, hmiss⟩ := sought_of_loop hm.knows hloop hlast
  cases r with
  | true =>
      refine ⟨hsound, hknows, hnonneg, adjacent_nil _ _ _, fun _ => hhit rfl, fun w hw => ?_⟩
      cases hw
  | false =>
      refine ⟨hsound, hknows, hnonneg, (adjacent_nil _ _ _).concat fun _ => ?_,
        fun hnil => absurd hnil (by simp), fun w hw => ?_⟩
      · rw [hmiss rfl, hmin]
        simp
      · obtain rfl : m'.streamer.requiredPieces = w := by simpa using hw
        exact ⟨[], by rw [List.append_nil]⟩

theorem Machine.Sliding.elsewhere {base : Int} {ws : List (List Int)}
    (hm : m.Sliding h md base ws) (hsame : m.streamer.SameRequests m'.streamer)
    (hfirst : m'.streamer.firstPiece = m.streamer.firstPiece)
    (hmin : m'.globals.minPieces = m.globals.minPieces) : m'.Sliding h md base ws := by
  obtain ⟨hsound, hknows, hnonneg, hadjacent, hhit, hlast⟩ := hm
  refine ⟨hsound.of_same hsame, ?_, hnonneg, by rwa [hmin], by rwa [hfirst], ?_⟩
  · unfold Knows Session.find? at hknows ⊢
    rwa [hsame.torrents]
  · rwa [hsame.requiredPieces]

/-- The invariant holds in every run. -/
theorem sliding_of_slides {base : Int} {ws : List (List Int)}
    (hm : Slides Continues (· = h) h md m base ws) (hmin : 1 ≤ m.globals.minPieces) :
    m.Sliding h md base ws := by
  induction hm with
  | handled hs hknows hempty hroom hchoice hx =>
      exact sliding_handled hs hknows hempty hroom hchoice hx hmin
  | next hm hc hx ih =>
      rw [minPieces_next hx] at hmin
      exact (ih hmin).next hmin hc hx
  | hit hm hx hlast hf ih =>
      rw [minPieces_fastForward hx] at hmin
      subst hf
      exact sliding_fastForward (ih hmin) hx hlast
  | miss hm hx hlast hf ih =>
      rw [minPieces_fastForward hx] at hmin
      subst hf
      exact sliding_fastForward (ih hmin) hx hlast
  | elsewhere hm hsame hfirst hmin' ih =>
      rw [hmin'] at hmin
      exact (ih hmin).elsewhere hsame hfirst hmin'

/-- **The sliding window is free of gaps**: in every run whose calls meet the condition the
windows since the last base lie one behind the other, and where the next one starts inside the
torrent or at its end the next call returns and makes it. -/
theorem gapFree_of_slides {base : Int} {ws : List (List Int)}
    (hm : Slides Continues (· = h) h md m base ws) (hmin : 1 ≤ m.globals.minPieces) :
    GapFree md base ws m ∧ (Continues m ws →
      base + ws.length * m.globals.minPieces.toNat ≤ md.val.numPieces →
      ∀ env, ∃ m', prioritizeNextPieces env h m = .ok () m' ∧ m'.streamer.requiredPieces =
        windowFrom (base + ws.length * m.globals.minPieces.toNat) m.globals.minPieces.toNat
          md.val.numPieces) := by
  have hsliding := sliding_of_slides hm hmin
  refine ⟨⟨hsliding.adjacent, hsliding.adjacent.flatten⟩, fun hc hle env => ?_⟩
  have hnext := hsliding.nextPiece hmin hc hle
  have hnonneg : 0 ≤ base + ws.length * m.globals.minPieces.toNat := by
    have := hsliding.nonneg
    positivity
  obtain ⟨_, m', hx⟩ :=
    returns_prioritizeNextPieces env hsliding.sound hsliding.knows hnext hnonneg
  exact ⟨m', hx, (continued_of_next hsliding.knows hnext hx).requiredPieces⟩

/-- A film is downloaded. A fast-forward behind its end leaves nothing required, a second one
finds its piece there, and the film finishes. Then the metadata of a magnet link arrives. -/
def finishAndStartMagnet : List Event :=
  let env := Env.calm (Metadata.films 1 40 []) fun _ => true
  [.start env "a.torrent".toList none none none, .fastForward env 40 1, .fastForward env 20 1,
    .alertsLoop [(env, .torrentFinished 0)],
    .start (.calm (Metadata.films 2 40 []) fun _ => true) "magnet:b".toList none none none,
    .metadataArrives 1 (Metadata.films 2 40 [])]

/-- The piece of the second fast-forward is taken for the second window of the next film. -/
theorem not_gapFree_afterFinish :
    ¬ ∀ (h : Nat) (md : Metadata) (m : Machine) (base : Int) (ws : List (List Int)),
      Slides (fun _ _ => True) (fun _ => True) h md m base ws → 1 ≤ m.globals.minPieces →
        GapFree md base ws m := by
  intro hall
  let md := Metadata.films 2 40 []
  let env := Env.calm md fun _ => true
  have hstart : (finalState finishAndStartMagnet).map (fun m => (m.streamer.requiredPieces,
      m.choice? md.val, (m.streamer.session.find? 1).map (·.info))) =
        some ([], some 0, some (some md)) := by decide +kernel
  have hfinal : (((finalState finishAndStartMagnet).bind (Call.metadata env 1).after).bind
      (Call.nextPieces env 1).after).map (fun m => (m.streamer.requiredPieces,
        m.globals.minPieces)) = some ([20], 1) := by decide +kernel
  obtain ⟨m, hm, hmap⟩ := Option.map_eq_some_iff.mp hfinal
  obtain ⟨m₂, hm₂, hnext⟩ := Option.bind_eq_some_iff.mp hm
  obtain ⟨m₁, hm₁, hmeta⟩ := Option.bind_eq_some_iff.mp hm₂
  obtain ⟨hrequired, hmin⟩ : m.streamer.requiredPieces = [20] ∧ m.globals.minPieces = 1 := by
    simpa using hmap
  rw [hm₁] at hstart
  obtain ⟨hempty, hchoice, t, ht, hinfo⟩ : m₁.streamer.requiredPieces = [] ∧
      m₁.choice? md.val = some 0 ∧ ∃ t, m₁.streamer.session.find? 1 = some t ∧
        t.info = some md := by simpa using hstart
  have hbase : ((md.val.firstPieceOf (Int.toNat 0) : Nat) : Int) = 0 := by decide
  have hhandled : Slides (fun _ _ => True) (fun _ => True) 1 md m₂ _ _ :=
    .handled (reachable_of_finalState hm₁).sound ⟨t, ht, hinfo⟩ hempty (by decide) hchoice
      (Call.after_eq_some hmeta)
  rw [hbase] at hhandled
  have hgap := hall 1 md m 0 _ (hhandled.next trivial (Call.after_eq_some hnext)) (by omega)
  have hsecond := hgap.adjacent 1 m.streamer.requiredPieces rfl (by rw [hmin]; decide)
  rw [hrequired, hmin] at hsecond
  exact absurd hsecond (by decide)

/-- A longer film on a newly initialised streamer, and its first two windows. -/
theorem gapFree_newStreamer :
    ∃ m, Slides Continues (· = 0) 0 (Metadata.films 2 100 []) m 0 [[0, 1, 2], [3, 4, 5]] ∧
      GapFree (Metadata.films 2 100 []) 0 [[0, 1, 2], [3, 4, 5]] m := by
  let md := Metadata.films 2 100 []
  let env := Env.calm md fun _ => true
  let es : List Event := [.start env "magnet:b".toList none none none, .metadataArrives 0 md]
  have hstart : (finalState es).map (fun m => (m.streamer.requiredPieces, m.choice? md.val,
      (m.streamer.session.find? 0).map (·.info))) = some ([], some 0, some (some md)) := by
    decide +kernel
  have hfinal : ((finalState es).bind (Call.metadata env 0).after).map (fun m =>
      (m.streamer.requiredPieces.take m.globals.minPieces.toNat, m.streamer.firstPiece,
        ((Call.nextPieces env 0).after m).map fun m' =>
          (m'.streamer.requiredPieces, m'.globals.minPieces))) =
        some ([0, 1, 2], -1, some ([3, 4, 5], 3)) := by decide +kernel
  obtain ⟨m₂, hm₂, hmap⟩ := Option.map_eq_some_iff.mp hfinal
  obtain ⟨m₁, hm₁, hmeta⟩ := Option.bind_eq_some_iff.mp hm₂
  simp only [Prod.mk.injEq] at hmap
  obtain ⟨hhead, hfirst, hnext⟩ := hmap
  obtain ⟨m, hnext, hwindow⟩ := Option.map_eq_some_iff.mp hnext
  obtain ⟨hrequired, hmin⟩ : m.streamer.requiredPieces = [3, 4, 5] ∧ m.globals.minPieces = 3 := by
    simpa using hwindow
  rw [hm₁] at hstart
  obtain ⟨hempty, hchoice, t, ht, hinfo⟩ : m₁.streamer.requiredPieces = [] ∧
      m₁.choice? md.val = some 0 ∧ ∃ t, m₁.streamer.session.find? 0 = some t ∧
        t.info = some md := by simpa using hstart
  have hbase : ((md.val.firstPieceOf (Int.toNat 0) : Nat) : Int) = 0 := by decide
  have hhandled : Slides Continues (· = 0) 0 md m₂ _ _ :=
    .handled (reachable_of_finalState hm₁).sound ⟨t, ht, hinfo⟩ hempty (by decide) hchoice
      (Call.after_eq_some hmeta)
  have hslides := hhandled.next (fun _ => hfirst) (Call.after_eq_some hnext)
  rw [hbase, hhead, hrequired] at hslides
  exact ⟨m, hslides, (gapFree_of_slides hslides (by omega)).1⟩

end BtDownloader
