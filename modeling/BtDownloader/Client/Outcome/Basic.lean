import BtDownloader.Client.Methods

set_option autoImplicit false

/-! # What each method can do

One lemma for each method: from what it returns, what the streamer and the shared variables
are afterwards. The invariants of the later files are proved from these lemmas and do not
open the methods again.

The primitive steps have `_eq_ok` lemmas, which `simp` uses to run a method's text.
-/

namespace BtDownloader

open Program

variable {m m' : Machine}

/-! ## Primitive steps -/

section Primitive

variable {α : Type} {a : α} {u : Unit}

@[simp] theorem pure_eq_ok {b : α} :
    (pure b : Handler α) m = .ok a m' ↔ a = b ∧ m' = m := by
  rw [pure_apply, EStateM.Result.ok.injEq]
  exact and_congr eq_comm eq_comm

@[simp] theorem throw_eq_ok {fault : Fault} : ¬ (throw fault : Handler α) m = .ok a m' := by
  rw [throw_apply]
  intro h
  cases h

@[simp] theorem gets_eq_ok {f : Streamer → α} :
    gets f m = .ok a m' ↔ a = f m.streamer ∧ m' = m := by
  rw [gets, EStateM.Result.ok.injEq]
  exact and_congr eq_comm eq_comm

@[simp] theorem modifies_eq_ok {f : Streamer → Streamer} :
    modifies f m = .ok u m' ↔ m' = { m with streamer := f m.streamer } := by
  rw [modifies, EStateM.Result.ok.injEq]
  exact ⟨fun h => h.2.symm, fun h => ⟨rfl, h.symm⟩⟩

@[simp] theorem emit_eq_ok {e : Effect} :
    emit e m = .ok u m' ↔ m' = { m with streamer := m.streamer.log [e] } := modifies_eq_ok

@[simp] theorem dispatchMain_eq_ok {b : MainBlock} :
    dispatchMain b m = .ok u m' ↔ m' = { m with streamer := m.streamer.dispatch b } :=
  modifies_eq_ok

@[simp] theorem ite_eq_ok {c : Prop} [Decidable c] {x y : Handler α} :
    (if c then x else y) m = .ok a m' ↔
      (c ∧ x m = .ok a m') ∨ (¬ c ∧ y m = .ok a m') := by
  by_cases hc : c
  · simp [hc]
  · simp [hc]

@[simp] theorem whenever_eq_ok {c : Prop} [Decidable c] {x : Handler Unit} :
    whenever c x m = .ok u m' ↔ (c ∧ x m = .ok u m') ∨ (¬ c ∧ m' = m) := by
  rw [whenever, ite_eq_ok, pure_eq_ok]
  simp

@[simp] theorem orFault_eq_ok {fault : Fault} {o : Option α} :
    orFault fault o m = .ok a m' ↔ o = some a ∧ m' = m := by
  cases o with
  | none => simp [orFault]
  | some b => simp [orFault, eq_comm]

@[simp] theorem getMinPieces_eq_ok {i : Int} : getMinPieces m = .ok i m' ↔
    i = m.globals.minPieces ∧ m' = { m with accesses := m.accesses ++ [.read .minPieces] } := by
  rw [getMinPieces, EStateM.Result.ok.injEq]
  exact and_congr eq_comm eq_comm

@[simp] theorem getSelectedFileIndex_eq_ok {i : Int} : getSelectedFileIndex m = .ok i m' ↔
    i = m.globals.selectedFileIndex ∧
      m' = { m with accesses := m.accesses ++ [.read .selectedFileIndex] } := by
  rw [getSelectedFileIndex, EStateM.Result.ok.injEq]
  exact and_congr eq_comm eq_comm

@[simp] theorem getShouldUserSelectFiles_eq_ok {b : Bool} :
    getShouldUserSelectFiles m = .ok b m' ↔
      b = m.globals.shouldUserSelectFiles ∧
        m' = { m with accesses := m.accesses ++ [.read .shouldUserSelectFiles] } := by
  rw [getShouldUserSelectFiles, EStateM.Result.ok.injEq]
  exact and_congr eq_comm eq_comm

@[simp] theorem setMinPieces_eq_ok {n : Int} : setMinPieces n m = .ok u m' ↔
    m' = { m with
      globals := { m.globals with minPieces := n }
      accesses := m.accesses ++ [.write .minPieces] } := by
  rw [setMinPieces, EStateM.Result.ok.injEq]
  exact ⟨fun h => h.2.symm, fun h => ⟨rfl, h.symm⟩⟩

@[simp] theorem setSelectedFileIndex_eq_ok {i : Int} : setSelectedFileIndex i m = .ok u m' ↔
    m' = { m with
      globals := { m.globals with selectedFileIndex := i }
      accesses := m.accesses ++ [.write .selectedFileIndex] } := by
  rw [setSelectedFileIndex, EStateM.Result.ok.injEq]
  exact ⟨fun h => h.2.symm, fun h => ⟨rfl, h.symm⟩⟩

@[simp] theorem setShouldUserSelectFiles_eq_ok {b : Bool} :
    setShouldUserSelectFiles b m = .ok u m' ↔
      m' = { m with
        globals := { m.globals with shouldUserSelectFiles := b }
        accesses := m.accesses ++ [.write .shouldUserSelectFiles] } := by
  rw [setShouldUserSelectFiles, EStateM.Result.ok.injEq]
  exact ⟨fun h => h.2.symm, fun h => ⟨rfl, h.symm⟩⟩

end Primitive

/-! ## Calls on a handle -/

theorem find?_eq_none {session : Session} {h : Nat} (hs : session.torrents = []) :
    session.find? h = none := by
  rw [Session.find?, hs]
  rfl

/-- The streamer after it sent the commands `cs` to the torrent `h`. -/
def Streamer.sent (env : Env) (h : Nat) (cs : List TorrentCommand) (s : Streamer) : Streamer :=
  (s.mapSession (·.update h (·.applyAll (env.downloaded h) cs))).log (cs.map (.command h))

theorem Torrent.applyAll_cons (downloaded : Nat → Bool) (t : Torrent) (c : TorrentCommand)
    (cs : List TorrentCommand) :
    t.applyAll downloaded (c :: cs) = (t.apply downloaded c).applyAll downloaded cs := rfl

theorem Torrent.applyAll_singleton (downloaded : Nat → Bool) (t : Torrent) (c : TorrentCommand) :
    t.applyAll downloaded [c] = t.apply downloaded c := rfl

theorem Torrent.applyAll_handle (downloaded : Nat → Bool) (t : Torrent)
    (cs : List TorrentCommand) : (t.applyAll downloaded cs).handle = t.handle := by
  induction cs generalizing t with
  | nil => rfl
  | cons c cs ih => exact (ih (t.apply downloaded c)).trans (apply_handle downloaded t c)

theorem Torrent.applyAll_info (downloaded : Nat → Bool) (t : Torrent)
    (cs : List TorrentCommand) : (t.applyAll downloaded cs).info = t.info := by
  induction cs generalizing t with
  | nil => rfl
  | cons c cs ih => exact (ih (t.apply downloaded c)).trans (apply_info downloaded t c)

theorem Torrent.applyAll_append (downloaded : Nat → Bool) (t : Torrent)
    (cs₁ cs₂ : List TorrentCommand) :
    t.applyAll downloaded (cs₁ ++ cs₂) = (t.applyAll downloaded cs₁).applyAll downloaded cs₂ :=
  List.foldl_append

@[simp] theorem find?_sent (env : Env) (h h' : Nat) (cs : List TorrentCommand) (s : Streamer) :
    (s.sent env h cs).session.find? h' =
      if h' = h then (s.session.find? h).map (·.applyAll (env.downloaded h) cs)
      else s.session.find? h' :=
  Session.find?_update _ _ _ _ fun t => Torrent.applyAll_handle _ t cs

/-- The torrent behind the handle after it was sent commands. -/
theorem find?_of_sent {env : Env} {h : Nat} {cs : List TorrentCommand} {s : Streamer} {t : Torrent}
    {session : Session} (hs : session = (s.sent env h cs).session)
    (ht : s.session.find? h = some t) :
    session.find? h = some (t.applyAll (env.downloaded h) cs) := by
  rw [hs, find?_sent, if_pos rfl, ht]
  rfl

@[simp] theorem handles_sent (env : Env) (h : Nat) (cs : List TorrentCommand) (s : Streamer) :
    (s.sent env h cs).session.torrents.map (·.handle) = s.session.torrents.map (·.handle) := by
  show (s.session.torrents.map _).map _ = _
  rw [List.map_map]
  refine List.map_congr_left fun t _ => ?_
  by_cases ht : t.handle = h
  · simp [ht, Torrent.applyAll_handle]
  · simp [ht]

/-- Commands sent one after the other are sent as one list. -/
theorem sent_sent (env : Env) (h : Nat) (cs₁ cs₂ : List TorrentCommand) (s : Streamer) :
    (s.sent env h cs₁).sent env h cs₂ = s.sent env h (cs₁ ++ cs₂) := by
  simp only [Streamer.sent, Streamer.mapSession, Streamer.log, List.map_append,
    List.append_assoc, Torrent.applyAll_append]
  rw [Session.update_update _ _ _ _ fun t => Torrent.applyAll_handle _ t cs₁]

@[simp] theorem torrentOf_eq_ok {h : Nat} {t : Torrent} :
    torrentOf h m = .ok t m' ↔ m.streamer.session.find? h = some t ∧ m' = m := by
  simp only [torrentOf, bind_eq_ok, gets_eq_ok, orFault_eq_ok]
  constructor
  · rintro ⟨o, m₁, ⟨rfl, rfl⟩, ht, rfl⟩
    exact ⟨ht, rfl⟩
  · rintro ⟨ht, rfl⟩
    exact ⟨_, _, ⟨rfl, rfl⟩, ht, rfl⟩

@[simp] theorem send_eq_ok {env : Env} {h : Nat} {c : TorrentCommand} {u : Unit} :
    send env h c m = .ok u m' ↔
      (∃ t, m.streamer.session.find? h = some t) ∧
        m' = { m with streamer := m.streamer.sent env h [c] } := by
  simp only [send, bind_eq_ok, torrentOf_eq_ok, modifies_eq_ok]
  constructor
  · rintro ⟨t, m₁, ⟨ht, rfl⟩, rfl⟩
    exact ⟨⟨t, ht⟩, rfl⟩
  · rintro ⟨⟨t, ht⟩, rfl⟩
    exact ⟨t, m, ⟨ht, rfl⟩, rfl⟩

@[simp] theorem statusOf_eq_ok {env : Env} {h : Nat} {st : TorrentStatus} :
    statusOf env h m = .ok st m' ↔
      (∃ t, m.streamer.session.find? h = some t) ∧ st = env.status h ∧ m' = m := by
  simp only [statusOf, bind_eq_ok, torrentOf_eq_ok, pure_eq_ok]
  constructor
  · rintro ⟨t, m₁, ⟨ht, rfl⟩, rfl, rfl⟩
    exact ⟨⟨t, ht⟩, rfl, rfl⟩
  · rintro ⟨⟨t, ht⟩, rfl, rfl⟩
    exact ⟨t, _, ⟨ht, rfl⟩, rfl, rfl⟩

@[simp] theorem torrentFile_eq_ok {h : Nat} {info : Option Metadata} :
    torrentFile h m = .ok info m' ↔
      ∃ t, m.streamer.session.find? h = some t ∧ info = t.info ∧ m' = m := by
  simp only [torrentFile, bind_eq_ok, torrentOf_eq_ok, pure_eq_ok]
  constructor
  · rintro ⟨t, m₁, ⟨ht, rfl⟩, rfl, rfl⟩
    exact ⟨t, ht, rfl, rfl⟩
  · rintro ⟨t, ht, rfl, rfl⟩
    exact ⟨t, _, ⟨ht, rfl⟩, rfl, rfl⟩

@[simp] theorem piecePriorities_eq_ok {h : Nat} {ps : List Nat} :
    piecePriorities h m = .ok ps m' ↔
      ∃ t, m.streamer.session.find? h = some t ∧ ps = t.piecePriorities ∧ m' = m := by
  simp only [piecePriorities, bind_eq_ok, torrentOf_eq_ok, pure_eq_ok]
  constructor
  · rintro ⟨t, m₁, ⟨ht, rfl⟩, rfl, rfl⟩
    exact ⟨t, ht, rfl, rfl⟩
  · rintro ⟨t, ht, rfl, rfl⟩
    exact ⟨t, _, ⟨ht, rfl⟩, rfl, rfl⟩

/-- What `file_priorities` answers for a torrent. -/
def Torrent.filePriorityList (t : Torrent) : List Nat :=
  match t.info with
  | none => t.filePriorities
  | some md => (List.range md.val.numFiles).map fun i =>
      (t.filePriorities[i]?).getD priorityDefault

@[simp] theorem filePriorities_eq_ok {h : Nat} {ps : List Nat} :
    filePriorities h m = .ok ps m' ↔
      ∃ t, m.streamer.session.find? h = some t ∧ ps = t.filePriorityList ∧ m' = m := by
  simp only [filePriorities, bind_eq_ok, torrentOf_eq_ok, Torrent.filePriorityList]
  constructor
  · rintro ⟨t, m₁, ⟨ht, rfl⟩, hps⟩
    refine ⟨t, ht, ?_⟩
    cases hi : t.info with
    | none => simpa [hi] using hps
    | some md => simpa [hi] using hps
  · rintro ⟨t, ht, hps, rfl⟩
    refine ⟨t, _, ⟨ht, rfl⟩, ?_⟩
    cases hi : t.info with
    | none => simpa [hi] using hps
    | some md => simpa [hi] using hps

/-- What `have_piece` answers for a torrent. -/
def Torrent.has (env : Env) (t : Torrent) (piece : Int) : Bool :=
  match t.info with
  | none => false
  | some md => decide (0 ≤ piece ∧ piece < md.val.numPieces)
      && env.downloaded t.handle piece.toNat

@[simp] theorem havePiece_eq_ok {env : Env} {h : Nat} {piece : Int} {b : Bool} :
    havePiece env h piece m = .ok b m' ↔
      ∃ t, m.streamer.session.find? h = some t ∧ b = t.has env piece ∧ m' = m := by
  simp only [havePiece, bind_eq_ok, torrentOf_eq_ok, Torrent.has]
  constructor
  · rintro ⟨t, m₁, ⟨ht, rfl⟩, hb⟩
    have hh := Session.find?_handle ht
    refine ⟨t, ht, ?_⟩
    cases hi : t.info with
    | none => simpa [hi] using hb
    | some md => simpa [hi, hh] using hb
  · rintro ⟨t, ht, hb, rfl⟩
    have hh := Session.find?_handle ht
    refine ⟨t, _, ⟨ht, rfl⟩, ?_⟩
    cases hi : t.info with
    | none => simpa [hi] using hb
    | some md => simpa [hi, hh] using hb

@[simp] theorem mapFile_eq_ok {md : Metadata} {fileIndex offset size : Int} {r : PeerRequest} :
    mapFile md fileIndex offset size m = .ok r m' ↔
      0 ≤ fileIndex ∧ r = md.val.mapFile fileIndex.toNat offset size ∧ m' = m := by
  simp [mapFile]

/-! ## The window -/

/-- The window of `k` pieces from `next` on, cut at the `n` pieces of the torrent. -/
def windowFrom (next : Int) (k n : Nat) : List Int := (piecesFrom next k).filter (· < n)

theorem piecesFrom_succ (next : Int) (k : Nat) :
    piecesFrom next (k + 1) = next :: piecesFrom (next + 1) k := by
  simp only [piecesFrom, List.range_succ_eq_map, List.map_cons, List.map_map]
  congr 1
  · simp
  · refine List.map_congr_left fun i _ => ?_
    simp only [Function.comp_apply, Nat.cast_succ]
    omega

@[simp] theorem length_piecesFrom (next : Int) (k : Nat) : (piecesFrom next k).length = k := by
  simp [piecesFrom]

@[simp] theorem mem_piecesFrom {next : Int} {k : Nat} {p : Int} :
    p ∈ piecesFrom next k ↔ next ≤ p ∧ p < next + k := by
  simp only [piecesFrom, List.mem_map, List.mem_range]
  constructor
  · rintro ⟨i, hi, rfl⟩
    omega
  · rintro ⟨h₁, h₂⟩
    exact ⟨(p - next).toNat, by omega, by omega⟩

@[simp] theorem mem_piecesDownFrom {last : Int} {k : Nat} {p : Int} :
    p ∈ piecesDownFrom last k ↔ last - k < p ∧ p ≤ last := by
  simp only [piecesDownFrom, List.mem_map, List.mem_range]
  constructor
  · rintro ⟨i, hi, rfl⟩
    omega
  · rintro ⟨h₁, h₂⟩
    exact ⟨(last - p).toNat, by omega, by omega⟩

@[simp] theorem mem_windowFrom {next : Int} {k n : Nat} {p : Int} :
    p ∈ windowFrom next k n ↔ next ≤ p ∧ p < next + k ∧ p < n := by
  simp [windowFrom, and_assoc]

theorem windowFrom_zero (next : Int) (n : Nat) : windowFrom next 0 n = [] := rfl

theorem windowFrom_succ (next : Int) (k n : Nat) :
    windowFrom next (k + 1) n =
      if next < n then next :: windowFrom (next + 1) k n else windowFrom (next + 1) k n := by
  rw [windowFrom, piecesFrom_succ, List.filter_cons]
  split <;> simp_all [windowFrom]

/-- The number of pieces of a torrent, once it is known. -/
def Torrent.numPieces (t : Torrent) : Nat := (t.info.map (·.val.numPieces)).getD 0

theorem setAt_eq_some {v v' : List Nat} {i : Int} {x : Nat} :
    setAt v i x = some v' ↔ (0 ≤ i ∧ i < v.length) ∧ v' = v.set i.toNat x := by
  unfold setAt
  split
  · simp_all [eq_comm]
  · simp_all

theorem sent_nil (env : Env) (h : Nat) (s : Streamer) : s.sent env h [] = s := by
  obtain ⟨⟨_, torrents, _, _⟩⟩ := s
  simp [Streamer.sent, Streamer.mapSession, Streamer.log, Session.update, Torrent.applyAll]

/-- The streamer with other required pieces. -/
def Streamer.requires (ps : List Int) (s : Streamer) : Streamer := { s with requiredPieces := ps }

theorem requires_sent (env : Env) (h : Nat) (cs : List TorrentCommand) (ps : List Int)
    (s : Streamer) : (s.requires ps).sent env h cs = (s.sent env h cs).requires ps := rfl

theorem requires_requires (ps ps' : List Int) (s : Streamer) :
    (s.requires ps).requires ps' = s.requires ps' := rfl

/-- The commands with which a window of pieces is asked for. -/
def deadlineCommands (w : List Int) : List TorrentCommand :=
  w.map (.setPieceDeadline · pieceDeadlineMillis)

/-- The priorities `ps`, with those of the pieces of `w` raised to the top. -/
def raised (w : List Int) (ps : List Nat) : List Nat :=
  ps.mapIdx fun p x => if (p : Int) ∈ w then priorityMaximum else x

@[simp] theorem length_raised (w : List Int) (ps : List Nat) :
    (raised w ps).length = ps.length := by
  simp [raised]

theorem getElem?_raised (w : List Int) (ps : List Nat) (p : Nat) :
    (raised w ps)[p]? = (ps[p]?).map fun x => if (p : Int) ∈ w then priorityMaximum else x := by
  simp [raised]

theorem raised_nil (ps : List Nat) : raised [] ps = ps := by
  refine List.ext_getElem? fun p => ?_
  rw [getElem?_raised]
  simp

/-- Raising a piece and then the pieces of `w` raises the piece and those of `w`. -/
theorem raised_set {i : Int} (hi : 0 ≤ i) (w : List Int) (ps : List Nat) :
    raised w (ps.set i.toNat priorityMaximum) = raised (i :: w) ps := by
  refine List.ext_getElem? fun p => ?_
  rw [getElem?_raised, getElem?_raised, List.getElem?_set]
  by_cases hp : i.toNat = p
  · subst hp
    by_cases hlt : i.toNat < ps.length
    · simp [hlt, hi]
    · simp [hlt]
  · have hne : (p : Int) ≠ i := by omega
    simp [hp, hne]

/-- A piece of a raised window has the top priority, any other keeps the low one. -/
theorem mem_raised_low {w : List Int} {ps : List Nat} {x : Nat}
    (hx : x ∈ raised w (ps.map fun _ => priorityLow)) : x = priorityLow ∨ x = priorityMaximum := by
  obtain ⟨p, hp⟩ := List.mem_iff_getElem?.mp hx
  rw [getElem?_raised, List.getElem?_map] at hp
  cases hps : ps[p]? with
  | none => simp [hps] at hp
  | some y =>
      simp only [hps, Option.map_some, Option.some.injEq] at hp
      by_cases hmem : (p : Int) ∈ w
      · rw [if_pos hmem] at hp
        exact Or.inr hp.symm
      · rw [if_neg hmem] at hp
        exact Or.inl hp.symm

/-- What the loop of `prioritizeNextPieces` does: it asks for the pieces of the window. -/
theorem prioritizeLoop_ok {env : Env} {h : Nat} {ti? : Option Metadata} {k : Nat} {i : Int}
    {ps ps' : List Nat} (hx : prioritizeLoop env h ti? k i ps m = .ok ps' m') :
    let w := windowFrom i k ((ti?.map (·.val.numPieces)).getD 0)
    m'.globals = m.globals ∧
      m'.streamer = (m.streamer.sent env h (deadlineCommands w)).requires
        (m.streamer.requiredPieces ++ w) ∧
      ps' = raised w ps := by
  induction k generalizing i ps m with
  | zero =>
      simp only [prioritizeLoop, pure_eq_ok] at hx
      obtain ⟨rfl, rfl⟩ := hx
      refine ⟨rfl, ?_, (raised_nil _).symm⟩
      rw [windowFrom_zero, deadlineCommands, List.map_nil, sent_nil, List.append_nil]
      rfl
  | succ k ih =>
      simp only [prioritizeLoop, bind_eq_ok, orFault_eq_ok, ite_eq_ok, send_eq_ok,
        modifies_eq_ok] at hx
      obtain ⟨md, m₁, ⟨rfl, rfl⟩, ⟨hlt, ps₁, m₂, ⟨hset, rfl⟩, -, m₃, ⟨-, h₃⟩, -, m₄, h₄, hx⟩ |
        ⟨hge, hx⟩⟩ := hx
      -- a piece of the torrent gets a deadline and is required; a later index is skipped
      · obtain ⟨hg, hs, hraised⟩ := ih hx
        obtain ⟨hi, rfl⟩ := setAt_eq_some.mp hset
        have hs₄ : m₄.streamer =
            (m₂.streamer.sent env h [.setPieceDeadline i pieceDeadlineMillis]).requires
              (m₂.streamer.requiredPieces ++ [i]) := by rw [h₄, h₃]; rfl
        simp only [Option.map_some, Option.getD_some, windowFrom_succ, if_pos hlt] at hs hraised ⊢
        refine ⟨by rw [hg, h₄, h₃], ?_, ?_⟩
        · rw [hs, hs₄, requires_sent, sent_sent, requires_requires]
          simp only [Streamer.requires, deadlineCommands, List.map_cons, List.append_assoc,
            List.singleton_append]
        · rw [hraised, raised_set hi.1]
      · simpa only [Option.map_some, Option.getD_some, windowFrom_succ, if_neg hge] using ih hx

/-- Where `prioritizeNextPieces` continues, if it finds the element it reads. -/
def Machine.nextPiece? (m : Machine) : Option Int :=
  if m.streamer.firstPiece ≠ -1 then some m.streamer.firstPiece
  else if m.streamer.requiredPieces = [] then some 0
  else (elementAt m.streamer.requiredPieces (m.globals.minPieces - 1)).map (· + 1)

theorem nextRequiredPiece_ok {next : Int} (hx : nextRequiredPiece m = .ok next m') :
    m.nextPiece? = some next ∧ m'.globals = m.globals ∧ m'.streamer = m.streamer := by
  simp only [nextRequiredPiece, bind_eq_ok, gets_eq_ok, ite_eq_ok, pure_eq_ok,
    getMinPieces_eq_ok, orFault_eq_ok] at hx
  obtain ⟨-, m₁, ⟨rfl, rfl⟩, ⟨hne, rfl, rfl⟩ | ⟨heq, -, m₁, ⟨rfl, rfl⟩,
    ⟨hpos, -, m₂, ⟨rfl, rfl⟩, piece, m₃, ⟨hp, rfl⟩, rfl, rfl⟩ | ⟨hpos, rfl, rfl⟩⟩⟩ := hx
  · exact ⟨if_pos hne, rfl, rfl⟩
  · refine ⟨?_, rfl, rfl⟩
    rw [Machine.nextPiece?, if_neg heq, if_neg (List.length_pos_iff.mp hpos), hp, Option.map_some]
  · refine ⟨?_, rfl, rfl⟩
    rw [Machine.nextPiece?, if_neg heq, if_pos (by simpa using hpos)]

/-- **What `prioritizeNextPieces` does.** It asks for the window that starts where it
continues, and gives the pieces of the window the top priority and every other piece the low
one. -/
theorem prioritizeNextPieces_ok {env : Env} {h : Nat} {u : Unit}
    (hx : prioritizeNextPieces env h m = .ok u m') :
    ∃ next t ps, m.nextPiece? = some next ∧ m.streamer.session.find? h = some t ∧
      ps.length = t.piecePriorities.length ∧
      ps = raised (windowFrom next m.globals.minPieces.toNat t.numPieces)
        (t.piecePriorities.map fun _ => priorityLow) ∧
      m'.globals = m.globals ∧
      let w := windowFrom next m.globals.minPieces.toNat t.numPieces
      m'.streamer = { m.streamer.sent env h
          (.clearPieceDeadlines :: deadlineCommands w ++ [.prioritizePieces ps]) with
        firstPiece := -1, requiredPieces := w } := by
  simp only [prioritizeNextPieces, bind_eq_ok, modifies_eq_ok, piecePriorities_eq_ok,
    torrentFile_eq_ok, send_eq_ok, getMinPieces_eq_ok] at hx
  obtain ⟨next, m₁, hnext, -, m₂, h₂, -, m₃, ⟨t, ht, rfl, rfl⟩, -, m₄, ⟨t', ht', rfl, rfl⟩, -, m₅,
    ⟨-, h₅⟩, -, m₆, ⟨rfl, h₆⟩, ps, m₇, hloop, -, h₇⟩ := hx
  obtain ⟨hnext, hg₁, hs₁⟩ := nextRequiredPiece_ok hnext
  obtain ⟨hg, hs, hraised⟩ := prioritizeLoop_ok hloop
  -- the torrent is looked up twice, with nothing sent to it in between
  obtain rfl : t' = t := Option.some.inj (ht'.symm.trans ht)
  have hmin : m₅.globals.minPieces = m.globals.minPieces := by rw [h₅, h₂, hg₁]
  rw [hmin] at hs hraised
  refine ⟨next, t', ps, hnext, ?_, by rw [hraised]; simp, hraised, ?_, ?_⟩
  · rw [← hs₁]
    simpa only [h₂] using ht
  · rw [h₇, hg, h₆, h₅, h₂, hg₁]
  · have hs₆ : m₆.streamer =
        ({ m.streamer with firstPiece := -1, requiredPieces := [] } : Streamer).sent env h
          [.clearPieceDeadlines] := by rw [h₆, h₅, h₂, hs₁]
    rw [h₇]
    show m₇.streamer.sent env h [.prioritizePieces ps] = _
    rw [hs, hs₆, requires_sent, sent_sent, sent_sent]
    rfl

/-! ## The choice of a file -/

/-- The loop keeps the index it has, or ends at the first file of the largest size. -/
theorem largestLoop_spec (files : List FileEntry) (i largestSize index : Int) :
    (largestLoop files i largestSize index = index ∧ ∀ fe ∈ files, (fe.size : Int) ≤ largestSize) ∨
    ∃ (j : Nat) (fe : FileEntry), files[j]? = some fe ∧
      largestLoop files i largestSize index = i + j ∧ largestSize < fe.size ∧
      ∀ fe' ∈ files, fe'.size ≤ fe.size := by
  induction files generalizing i largestSize index with
  | nil => exact Or.inl ⟨rfl, by simp⟩
  | cons fe files ih =>
      rw [largestLoop]
      by_cases hlarger : largestSize < fe.size
      · -- the file is larger than those before it: it is the largest, or a later one is
        rw [if_pos hlarger]
        rcases ih (i + 1) fe.size i with ⟨hindex, hle⟩ | ⟨j, fe', hj, hindex, hlt, hle⟩
        · refine Or.inr ⟨0, fe, rfl, by simpa using hindex, hlarger, ?_⟩
          intro fe' hfe'
          rcases List.mem_cons.mp hfe' with rfl | hfe'
          · exact Nat.le_refl _
          · exact Int.ofNat_le.mp (hle fe' hfe')
        · refine Or.inr ⟨j + 1, fe', hj, by rw [hindex]; push_cast; omega, by omega, ?_⟩
          intro fe'' hfe''
          rcases List.mem_cons.mp hfe'' with rfl | hfe''
          · omega
          · exact hle fe'' hfe''
      · rw [if_neg hlarger]
        rcases ih (i + 1) largestSize index with ⟨hindex, hle⟩ | ⟨j, fe', hj, hindex, hlt, hle⟩
        · refine Or.inl ⟨hindex, ?_⟩
          intro fe' hfe'
          rcases List.mem_cons.mp hfe' with rfl | hfe'
          · exact Int.not_lt.mp hlarger
          · exact hle fe' hfe'
        · refine Or.inr ⟨j + 1, fe', hj, by rw [hindex]; push_cast; omega, hlt, ?_⟩
          intro fe'' hfe''
          rcases List.mem_cons.mp hfe'' with rfl | hfe''
          · omega
          · exact hle fe'' hfe''

/-- **The largest file exists, and no file is larger.** -/
theorem fileAt_largestFileIndex (md : Metadata) :
    ∃ fe, md.val.fileAt (largestFileIndex md.val) = some fe ∧
      ∀ fe' ∈ md.val.files, fe'.size ≤ fe.size := by
  rcases largestLoop_spec md.val.files 0 (-1) (-1) with ⟨-, hle⟩ | ⟨j, fe, hj, hindex, -, hle⟩
  · -- every size is at least `0`, so the loop takes the first file at least
    obtain ⟨fe, hfe⟩ := List.exists_mem_of_ne_nil _ md.property.1
    have := hle fe hfe
    omega
  · refine ⟨fe, ?_, hle⟩
    rw [TorrentInfo.fileAt_eq_some, largestFileIndex, hindex]
    exact ⟨by omega, by simpa using hj⟩

/-- The file a streamer takes when the user is not asked. -/
def defaultFileIndex (ti : TorrentInfo) : Int :=
  if 1 < ti.numFiles then largestFileIndex ti else 0

/-- **The default file is one of the torrent's files, and no file is larger.** -/
theorem fileAt_defaultFileIndex (md : Metadata) :
    ∃ fe, md.val.fileAt (defaultFileIndex md.val) = some fe ∧
      ∀ fe' ∈ md.val.files, fe'.size ≤ fe.size := by
  unfold defaultFileIndex
  split
  · exact fileAt_largestFileIndex md
  · rename_i hone
    have hlength : md.val.files.length = 1 := by
      have hpos := md.numFiles_pos
      unfold TorrentInfo.numFiles at hone hpos
      omega
    obtain ⟨fe, hfe⟩ := List.length_eq_one_iff.mp hlength
    refine ⟨fe, by simp [TorrentInfo.fileAt, hfe], ?_⟩
    simp [hfe]

/-- How `indexOfLargestFileInTorrentWithTorrentInfo` comes to its answer: the index, the
shared variables and the effects afterwards. -/
inductive Selects (g : Globals) (block? : Option SelectionBlock) (ti? : Option TorrentInfo) :
    Int → Globals → List Effect → Prop
  | earlier (hflag : g.shouldUserSelectFiles = true) (hsel : g.selectedFileIndex ≠ -1) :
      Selects g block? ti? g.selectedFileIndex { g with shouldUserSelectFiles := false } []
  | asked (ti : TorrentInfo) (block : SelectionBlock) (hflag : g.shouldUserSelectFiles = true)
      (hsel : g.selectedFileIndex = -1) (hti : ti? = some ti)
      (hblock : block? = some block) :
      Selects g block? ti? (block.answer ti.fileNames)
        { g with
          shouldUserSelectFiles := false
          selectedFileIndex := block.answer ti.fileNames }
        [.calledSelection block.block ti.fileNames]
  | largest (ti : TorrentInfo) (hflag : g.shouldUserSelectFiles = false)
      (hti : ti? = some ti) (hfiles : 1 < ti.numFiles) :
      Selects g block? ti? (largestFileIndex ti)
        { g with selectedFileIndex := largestFileIndex ti } []
  | only (ti : TorrentInfo) (hflag : g.shouldUserSelectFiles = false)
      (hti : ti? = some ti) (hfiles : ¬ 1 < ti.numFiles) :
      Selects g block? ti? 0 g []

theorem log_nil (s : Streamer) : s.log [] = s := by simp [Streamer.log]

theorem indexOfLargestFileInTorrentWithTorrentInfo_ok {ti? : Option TorrentInfo} {i : Int}
    (hx : indexOfLargestFileInTorrentWithTorrentInfo ti? m = .ok i m') :
    ∃ es, Selects m.globals m.streamer.selectionBlock ti? i m'.globals es ∧
      m'.streamer = m.streamer.log es := by
  simp only [indexOfLargestFileInTorrentWithTorrentInfo, bind_eq_ok, ite_eq_ok, pure_eq_ok,
    getShouldUserSelectFiles_eq_ok, setShouldUserSelectFiles_eq_ok, getSelectedFileIndex_eq_ok,
    setSelectedFileIndex_eq_ok, orFault_eq_ok, gets_eq_ok, emit_eq_ok] at hx
  obtain ⟨-, m₁, ⟨rfl, rfl⟩, ⟨hflag, -, m₂, rfl, -, m₃, ⟨rfl, rfl⟩, ⟨hsel, rfl, rfl⟩ |
    ⟨hsel, ti, m₄, ⟨hti, rfl⟩, -, m₅, ⟨rfl, rfl⟩, block, m₆, ⟨hblock, rfl⟩, -, m₇, rfl, -, m₈,
      rfl, rfl, rfl⟩⟩ | ⟨hflag, ti, m₂, ⟨hti, rfl⟩, ⟨hfiles, -, m₃, rfl, rfl, rfl⟩ |
    ⟨hfiles, rfl, rfl⟩⟩⟩ := hx
  · exact ⟨_, .earlier hflag hsel, (log_nil _).symm⟩
  · exact ⟨_, .asked ti block hflag (not_not.mp hsel) hti hblock, rfl⟩
  · exact ⟨_, .largest ti (by simpa using hflag) hti hfiles, (log_nil _).symm⟩
  · exact ⟨_, .only ti (by simpa using hflag) hti hfiles, (log_nil _).symm⟩

theorem indexOfLargestFileInTorrent_ok {h : Nat} {i : Int}
    (hx : indexOfLargestFileInTorrent h m = .ok i m') :
    ∃ t es, m.streamer.session.find? h = some t ∧
      Selects m.globals m.streamer.selectionBlock (t.info.map (·.val)) i m'.globals es ∧
      m'.streamer = m.streamer.log es := by
  simp only [indexOfLargestFileInTorrent, bind_eq_ok, torrentFile_eq_ok] at hx
  obtain ⟨info, m₁, ⟨t, ht, rfl, rfl⟩, hx⟩ := hx
  obtain ⟨es, hsel, hs⟩ := indexOfLargestFileInTorrentWithTorrentInfo_ok hx
  exact ⟨t, es, ht, hsel, hs⟩

/-- How `selectedFileIndex != -1 ? selectedFileIndex : [self indexOfLargestFile…]` comes to
its answer. -/
inductive Chooses (g : Globals) (block? : Option SelectionBlock) (ti? : Option TorrentInfo) :
    Int → Globals → List Effect → Prop
  | current (hsel : g.selectedFileIndex ≠ -1) : Chooses g block? ti? g.selectedFileIndex g []
  | selects {i : Int} {g' : Globals} {es : List Effect} (hsel : g.selectedFileIndex = -1)
      (h : Selects g block? ti? i g' es) : Chooses g block? ti? i g' es

theorem selectedFileIndexOrLargest_ok {h : Nat} {i : Int} {t : Torrent}
    (hx : selectedFileIndexOrLargest h m = .ok i m')
    (ht : m.streamer.session.find? h = some t) :
    ∃ es, Chooses m.globals m.streamer.selectionBlock (t.info.map (·.val)) i m'.globals es ∧
      m'.streamer = m.streamer.log es := by
  simp only [selectedFileIndexOrLargest, bind_eq_ok, getSelectedFileIndex_eq_ok, ite_eq_ok,
    pure_eq_ok] at hx
  obtain ⟨-, m₁, ⟨rfl, rfl⟩, ⟨hsel, rfl, rfl⟩ | ⟨hsel, hx⟩⟩ := hx
  · exact ⟨[], .current hsel, (log_nil _).symm⟩
  · obtain ⟨t', es, ht', hselects, hs⟩ := indexOfLargestFileInTorrent_ok hx
    obtain rfl : t' = t := Option.some.inj (ht'.symm.trans ht)
    exact ⟨es, .selects (not_not.mp hsel) hselects, hs⟩

/-! ## Cancelling -/

/-- The effects of tearing torrents down: no priority or deadline command is among them. -/
def Effect.IsTeardown : Effect → Prop
  | .command _ c => c.isPriority = false
  | .removed _ => True
  | _ => False

/-- The streamer with another session, after more effects. -/
def Streamer.withSession (session : Session) (es : List Effect) (s : Streamer) : Streamer :=
  { s with session := session, effects := s.effects ++ es }

theorem withSession_withSession (session₁ session₂ : Session) (es₁ es₂ : List Effect)
    (s : Streamer) : (s.withSession session₁ es₁).withSession session₂ es₂ =
      s.withSession session₂ (es₁ ++ es₂) := by
  simp only [Streamer.withSession, List.append_assoc]

/-- The torrent paused. -/
def Torrent.pause (t : Torrent) : Torrent := { t with paused := true }

/-- What a pass over the torrents `hs` in `cancelStreamingAndDeleteData` leaves of the
session: without deletion they are paused, and resume data may be owed. -/
structure PausedIn (deleteData : Bool) (hs : List Nat) (session session' : Session) : Prop where
  nextHandle_eq : session'.nextHandle = session.nextHandle
  torrents_eq : deleteData = false → session'.torrents =
    session.torrents.map fun t => if t.handle ∈ hs then t.pause else t
  owed : deleteData = false → ∃ owed, session'.outstanding = session.outstanding ++ owed ∧
    ∀ a ∈ owed, ∃ h, a = .saveResumeData h

theorem PausedIn.refl (deleteData : Bool) (session : Session) :
    PausedIn deleteData [] session session :=
  ⟨rfl, fun _ => by simp, fun _ => ⟨[], by simp, by simp⟩⟩

theorem PausedIn.trans {deleteData : Bool} {hs₁ hs₂ : List Nat} {a b c : Session}
    (h₁ : PausedIn deleteData hs₁ a b) (h₂ : PausedIn deleteData hs₂ b c) :
    PausedIn deleteData (hs₁ ++ hs₂) a c where
  nextHandle_eq := h₂.nextHandle_eq.trans h₁.nextHandle_eq
  torrents_eq hd := by
    rw [h₂.torrents_eq hd, h₁.torrents_eq hd, List.map_map]
    refine List.map_congr_left fun t _ => ?_
    by_cases ht₁ : t.handle ∈ hs₁ <;> by_cases ht₂ : t.handle ∈ hs₂ <;>
      simp [ht₁, ht₂, Torrent.pause]
  owed hd := by
    obtain ⟨owed₁, ho₁, hm₁⟩ := h₁.owed hd
    obtain ⟨owed₂, ho₂, hm₂⟩ := h₂.owed hd
    refine ⟨owed₁ ++ owed₂, by rw [ho₂, ho₁, List.append_assoc], fun a ha => ?_⟩
    exact (List.mem_append.mp ha).elim (hm₁ a) (hm₂ a)

/-- From `m` to `m'` only torrents were torn down. -/
def TearsDown (deleteData : Bool) (hs : List Nat) (m m' : Machine) : Prop :=
  m'.globals = m.globals ∧ ∃ session es, m'.streamer = m.streamer.withSession session es ∧
    PausedIn deleteData hs m.streamer.session session ∧ ∀ e ∈ es, e.IsTeardown

theorem TearsDown.refl (deleteData : Bool) (m : Machine) : TearsDown deleteData [] m m :=
  ⟨rfl, m.streamer.session, [], by simp [Streamer.withSession], PausedIn.refl _ _, by simp⟩

theorem TearsDown.trans {deleteData : Bool} {hs₁ hs₂ : List Nat} {m₁ m₂ m₃ : Machine}
    (h₁ : TearsDown deleteData hs₁ m₁ m₂) (h₂ : TearsDown deleteData hs₂ m₂ m₃) :
    TearsDown deleteData (hs₁ ++ hs₂) m₁ m₃ := by
  obtain ⟨hg₁, session₁, es₁, hs₁, hp₁, ht₁⟩ := h₁
  obtain ⟨hg₂, session₂, es₂, hs₂, hp₂, ht₂⟩ := h₂
  rw [hs₁] at hp₂
  refine ⟨hg₂.trans hg₁, session₂, es₁ ++ es₂, ?_, hp₁.trans hp₂, fun e he => ?_⟩
  · rw [hs₂, hs₁, withSession_withSession]
  · exact (List.mem_append.mp he).elim (ht₁ e) (ht₂ e)

/-- A change of the session that keeps the torrents. -/
theorem tearsDown_mapSession {deleteData : Bool} {f : Session → Session} {m : Machine}
    (h : PausedIn deleteData [] m.streamer.session (f m.streamer.session)) :
    TearsDown deleteData [] m { m with streamer := m.streamer.mapSession f } :=
  ⟨rfl, f m.streamer.session, [], by simp [Streamer.withSession, Streamer.mapSession], h, by simp⟩

/-- A command that is neither a priority nor a deadline command, and changes nothing but
whether the torrent is paused. -/
theorem tearsDown_sent {deleteData : Bool} {env : Env} {h : Nat} {c : TorrentCommand}
    {hs : List Nat} {m : Machine} (hc : c.isPriority = false)
    (happly : ∀ t : Torrent, (if t.handle = h then t.apply (env.downloaded h) c else t) =
      if t.handle ∈ hs then t.pause else t) :
    TearsDown deleteData hs m { m with streamer := m.streamer.sent env h [c] } := by
  refine ⟨rfl, m.streamer.session.update h (·.applyAll (env.downloaded h) [c]), [.command h c],
    rfl, ⟨rfl, fun _ => ?_, fun _ => ⟨[], by simp, by simp⟩⟩, by simpa [Effect.IsTeardown] using hc⟩
  exact List.map_congr_left fun t _ => happly t

theorem cancelTorrent_ok {env : Env} {deleteData : Bool} {h : Nat} {u : Unit}
    (hx : cancelTorrent env deleteData h m = .ok u m') : TearsDown deleteData [h] m m' := by
  simp only [cancelTorrent, bind_eq_ok, send_eq_ok, whenever_eq_ok, modifies_eq_ok,
    removeTorrent] at hx
  obtain ⟨-, m₁, ⟨-, h₁⟩, -, m₂, h₂, -, m₃, ⟨-, h₃⟩, -, m₄, h₄, h₅⟩ := hx
  -- each call to libtorrent is a teardown, and teardowns compose
  have hpause : TearsDown deleteData [h] m m₁ := by
    rw [h₁]
    refine tearsDown_sent rfl fun t => ?_
    rw [Torrent.apply_of_not_isPriority _ _ rfl]
    simp [Torrent.command, Torrent.pause]
  have hsave : TearsDown deleteData [] m₁ m₂ := by
    rcases h₂ with ⟨-, -, m₁', ⟨-, h₁'⟩, h₂⟩ | ⟨-, h₂⟩
    · have hsend : TearsDown deleteData [] m₁ m₁' := by
        rw [h₁']
        refine tearsDown_sent rfl fun t => ?_
        rw [Torrent.apply_of_not_isPriority _ _ rfl]
        simp [Torrent.command]
      have howe : TearsDown deleteData [] m₁' m₂ := by
        rw [h₂]
        refine tearsDown_mapSession ?_
        rcases m₁'.streamer.session.oweResumeData_cases h with hnot | howes
        · rw [hnot]
          exact PausedIn.refl _ _
        · rw [howes]
          exact ⟨rfl, fun _ => by simp [Session.owe], fun _ => ⟨[.saveResumeData h], rfl, by simp⟩⟩
      exact hsend.trans howe
    · rw [h₂]
      exact TearsDown.refl _ _
  have hflush : TearsDown deleteData [] m₂ m₃ := by
    rw [h₃]
    refine tearsDown_sent rfl fun t => ?_
    rw [Torrent.apply_of_not_isPriority _ _ rfl]
    simp [Torrent.command]
  have hpaused : TearsDown deleteData [] m₃ m₄ := by
    rw [h₄]
    refine tearsDown_mapSession ?_
    exact ⟨rfl, fun _ => by simp, fun _ => ⟨[], by simp, by simp⟩⟩
  have hremove : TearsDown deleteData [] m₄ m' := by
    rcases h₅ with ⟨hd, h₅⟩ | ⟨-, h₅⟩
    · subst hd
      rw [h₅]
      exact ⟨rfl, m₄.streamer.session.removeTorrent h, [.removed h], rfl,
        ⟨rfl, by simp, by simp⟩, by simp [Effect.IsTeardown]⟩
    · rw [h₅]
      exact TearsDown.refl _ _
  exact hpause.trans (hsave.trans (hflush.trans (hpaused.trans hremove)))

theorem each_cancelTorrent_ok {env : Env} {deleteData : Bool} {hs : List Nat} {u : Unit}
    (hx : each (cancelTorrent env deleteData) hs m = .ok u m') :
    TearsDown deleteData hs m m' := by
  induction hs generalizing m with
  | nil =>
      rw [each_nil, pure_eq_ok] at hx
      rw [hx.2]
      exact TearsDown.refl _ _
  | cons h hs ih =>
      obtain ⟨m₁, h₁, h₂⟩ := each_cons_ok.mp hx
      exact (cancelTorrent_ok h₁).trans (ih h₂)

/-- The streamer at the end of the part of a cancel that both kinds share. -/
def Streamer.cancelled (session : Session) (es : List Effect) (s : Streamer) : Streamer :=
  (((s.withSession session es).reset).log [.cancelled]).dispatch (.networkActivityIndicator false)

/-- **What a cancel that keeps the data does.** The torrents stay in the session, paused;
the save path, the timers and the alerts loop are left as they are. -/
theorem cancel_keeping_ok {env : Env} {u : Unit}
    (hx : cancelStreamingAndDeleteData env false m = .ok u m') :
    m'.globals = { m.globals with selectedFileIndex := -1 } ∧
      ∃ session es, (∀ e ∈ es, e.IsTeardown) ∧ m'.streamer = m.streamer.cancelled session es ∧
        session.nextHandle = m.streamer.session.nextHandle ∧
        session.torrents = m.streamer.session.torrents.map Torrent.pause ∧
        ∃ owed, session.outstanding = m.streamer.session.outstanding ++ owed ∧
          ∀ a ∈ owed, ∃ h, a = .saveResumeData h := by
  simp only [cancelStreamingAndDeleteData, bind_eq_ok, gets_eq_ok, modifies_eq_ok,
    setSelectedFileIndex_eq_ok, emit_eq_ok, dispatchMain_eq_ok, whenever_eq_ok] at hx
  obtain ⟨ths, m₁, ⟨rfl, rfl⟩, _, m₂, h₂, -, m₃, h₃, -, m₄, h₄, -, m₅, h₅, -, m₆, h₆,
    ⟨hd, -⟩ | ⟨-, h₇⟩⟩ := hx
  · cases hd
  · obtain ⟨hg, session, es, hs, hp, ht⟩ := each_cancelTorrent_ok h₂
    refine ⟨?_, session, es, ht, ?_, hp.nextHandle_eq, ?_, hp.owed rfl⟩
    · rw [h₇, h₆, h₅, h₄, h₃, hg]
    · rw [h₇, h₆, h₅, h₄, h₃, hs]
      rfl
    · rw [hp.torrents_eq rfl]
      exact List.map_congr_left fun t hmem => if_pos (List.mem_map_of_mem hmem)

/-- The streamer at the end of a cancel that deletes the data. -/
def Streamer.deleted (es : List Effect) (s : Streamer) : Streamer :=
  { s.cancelled { nextHandle := s.session.nextHandle } es with
    audioPlaying := false
    alertsLoopActive := false
    scheduledTimers := s.invalidateTimer.scheduledTimers
    savePath := none }

/-- **What a cancel that deletes the data does.** The session is a new one. -/
theorem cancel_deleting_ok {env : Env} {u : Unit}
    (hx : cancelStreamingAndDeleteData env true m = .ok u m') :
    m'.globals = { m.globals with selectedFileIndex := -1 } ∧
      ∃ es, (∀ e ∈ es, e.IsTeardown) ∧ m'.streamer = m.streamer.deleted es := by
  simp only [cancelStreamingAndDeleteData, bind_eq_ok, gets_eq_ok, modifies_eq_ok,
    setSelectedFileIndex_eq_ok, emit_eq_ok, dispatchMain_eq_ok, whenever_eq_ok] at hx
  obtain ⟨ths, m₁, ⟨rfl, rfl⟩, _, m₂, h₂, -, m₃, h₃, -, m₄, h₄, -, m₅, h₅, -, m₆, h₆,
    ⟨-, -, m₇, h₇, -, m₈, h₈, -, m₉, h₉, h₁₀⟩ | ⟨hd, -⟩⟩ := hx
  · obtain ⟨hg, session, es, hs, hp, ht⟩ := each_cancelTorrent_ok h₂
    have hs₆ : m₆.streamer = m₁.streamer.cancelled session es := by
      rw [h₆, h₅, h₄, h₃, hs]
      rfl
    have hg₆ : m₆.globals = { m₁.globals with selectedFileIndex := -1 } := by
      rw [h₆, h₅, h₄, h₃, hg]
    have hs₇ : m₇.streamer =
        { m₆.streamer with audioPlaying := false, alertsLoopActive := false } := by rw [h₇]
    have hs₈ : m₈.streamer = m₇.streamer.invalidateTimer := by rw [h₈]
    have hs₉ : m₉.streamer = { m₈.streamer with savePath := none } := by rw [h₉]
    refine ⟨by rw [h₁₀, h₉, h₈, h₇, hg₆], es, ht, ?_⟩
    rw [h₁₀, hs₉, hs₈, hs₇, hs₆]
    simp only [Streamer.deleted, Streamer.cancelled, Streamer.dispatch, Streamer.log,
      Streamer.reset, Streamer.withSession, Streamer.setupSession, Streamer.invalidateTimer,
      hp.nextHandle_eq]
    rfl
  · exact absurd trivial hd

end BtDownloader
