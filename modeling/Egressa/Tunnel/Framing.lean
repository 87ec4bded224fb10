import Egressa.Conc.Discipline
import Egressa.Slices
import Egressa.Tunnel.SessionBind

/-!
# Framing in place

The receive function of `wrapReceiveFunc` (`internal/tunnel/sessionbind.go`) takes the session headers off in the
buffers that the real bind has filled: what it keeps moves to the front of the same arrays.
-/

namespace Egressa.Tunnel

open Conc Wire Slices
open Function (update update_of_ne update_self)

/-! ## Receiving -/

/-- The arguments of a receive function: buffers, how many bytes of each are in use, and the senders. -/
structure Buffers (ε : Type) where
  packets : List (List UInt8)
  sizes : List ℕ
  eps : List ε

variable {ε : Type}

/-- What the loop over a batch works on. -/
structure Stripping (ε : Type) where
  out : ℕ
  buffers : Buffers ε
  heard : List SessionHeader

def rejects (admits : Option (ℕ → SessionHeader → Bool)) (i : ℕ) (h : SessionHeader) : Bool :=
  match admits with
  | some admits => !admits i h
  | none => false

/-- A turn of the loop of the receive function.  `admits` may change its mind from datagram to datagram. -/
def stripOne (admits : Option (ℕ → SessionHeader → Bool)) (onRecv : Bool) (i : ℕ) (s : Stripping ε) :
    Outcome String (Stripping ε) := do
  let packet ← index s.buffers.packets i
  let size ← index s.buffers.sizes i
  let data ← slice packet 0 size
  if data.length < sessionHeaderSize then return s
  match decode data with
  | .error _ => return s
  | .ok (h, consumed) =>
    if rejects admits i h then return s
    let heard := if onRecv then s.heard ++ [h] else s.heard
    let rest ← sliceFrom data consumed
    let dst ← index s.buffers.packets s.out
    let packets ← assign s.buffers.packets s.out (copy dst rest)
    let sizes ← assign s.buffers.sizes s.out rest.length
    let ep ← index s.buffers.eps i
    let eps ← assign s.buffers.eps s.out ep
    return ⟨s.out + 1, ⟨packets, sizes, eps⟩, heard⟩

/-- Strips headers, and moves what is admitted to the front. -/
def stripLoop (admits : Option (ℕ → SessionHeader → Bool)) (onRecv : Bool) :
    ℕ → ℕ → Stripping ε → Outcome String (Stripping ε)
  | 0, _, s => return s
  | k + 1, i, s => do
    let s ← stripOne admits onRecv i s
    stripLoop admits onRecv k (i + 1) s

abbrev Datagram (ε : Type) : Type := List UInt8 × ε

def Buffers.Shows (b : Buffers ε) (i : ℕ) (d : Datagram ε) : Prop :=
  ∃ packet, b.packets[i]? = some packet ∧ b.sizes[i]? = some d.1.length ∧ b.eps[i]? = some d.2 ∧
    packet.take d.1.length = d.1

/-- The buffers show the datagrams. -/
def Buffers.Holds (b : Buffers ε) (l : List (Datagram ε)) : Prop := ∀ i d, l[i]? = some d → b.Shows i d

/-- The datagram is long enough and admitted. -/
def accepts (admits : Option (ℕ → SessionHeader → Bool)) (i : ℕ) (data : List UInt8) : Bool :=
  sessionHeaderSize ≤ data.length && match decode data with
    | .ok (h, _) => !rejects admits i h
    | .error _ => false

/-- The datagrams accepted, without their headers. -/
def stripped (admits : Option (ℕ → SessionHeader → Bool)) (l : List (Datagram ε)) : List (Datagram ε) :=
  (l.zipIdx.filter fun x => accepts admits x.2 x.1.1).map fun x => (x.1.1.drop sessionHeaderSize, x.1.2)

theorem stripped_concat (admits : Option (ℕ → SessionHeader → Bool)) (l : List (Datagram ε)) (d : Datagram ε) :
    stripped admits (l ++ [d]) = stripped admits l ++
      if accepts admits l.length d.1 then [(d.1.drop sessionHeaderSize, d.2)] else [] := by
  rw [stripped, List.zipIdx_append, List.filter_append, List.map_append]
  refine congrArg (stripped admits l ++ ·) ?_
  by_cases h : accepts admits l.length d.1 = true
  · simp [h]
  · simp [h]

theorem decode_of_le {data : List UInt8} (room : sessionHeaderSize ≤ data.length) :
    ∃ h, decode data = .ok (h, sessionHeaderSize) := by
  rw [decode, if_neg (by omega)]
  exact ⟨_, rfl⟩

theorem accepts_of_decode {admits : Option (ℕ → SessionHeader → Bool)} {i : ℕ} {data : List UInt8} {h : SessionHeader}
    (room : sessionHeaderSize ≤ data.length) (hh : decode data = .ok (h, sessionHeaderSize)) :
    accepts admits i data = !rejects admits i h := by
  rw [accepts, hh]
  simp [room]

namespace Buffers

variable {b : Buffers ε} {i j : ℕ} {d : Datagram ε}

theorem Shows.lt (shows : b.Shows i d) : i < b.packets.length ∧ i < b.sizes.length ∧ i < b.eps.length := by
  obtain ⟨packet, hp, hs, he, -⟩ := shows
  exact ⟨(List.getElem?_eq_some_iff.mp hp).1, (List.getElem?_eq_some_iff.mp hs).1,
    (List.getElem?_eq_some_iff.mp he).1⟩

def store (b : Buffers ε) (j : ℕ) (packet : List UInt8) (size : ℕ) (ep : ε) : Buffers ε :=
  ⟨b.packets.set j packet, b.sizes.set j size, b.eps.set j ep⟩

theorem Shows.store_of_ne (shows : b.Shows i d) (hj : i ≠ j) (packet : List UInt8) (size : ℕ) (ep : ε) :
    (b.store j packet size ep).Shows i d := by
  obtain ⟨p, hp, hs, he, hd⟩ := shows
  exact ⟨p, by rw [store, List.getElem?_set_ne hj.symm, hp], by rw [store, List.getElem?_set_ne hj.symm, hs],
    by rw [store, List.getElem?_set_ne hj.symm, he], hd⟩

end Buffers

section Turn

variable {admits : Option (ℕ → SessionHeader → Bool)} (onRecv : Bool) {i : ℕ} {s : Stripping ε} {d : Datagram ε}

theorem Buffers.Shows.fits {b : Buffers ε} (shows : b.Shows i d) :
    ∃ packet, b.packets[i]? = some packet ∧ d.1.length ≤ packet.length ∧
      slice packet 0 d.1.length = (.ok d.1 : Outcome String _) := by
  obtain ⟨packet, hp, -, -, htake⟩ := shows
  have fits : d.1.length ≤ packet.length := by
    have := congrArg List.length htake
    rw [List.length_take] at this
    omega
  exact ⟨packet, hp, fits, by rw [slice_of_le (Nat.zero_le _) fits, List.drop_zero, htake]⟩

theorem stripOne_skip (shows : s.buffers.Shows i d) (no : accepts admits i d.1 = false) :
    stripOne admits onRecv i s = .ok s := by
  obtain ⟨packet, hp, -, data⟩ := shows.fits
  obtain ⟨-, -, hsize, -, -⟩ := shows
  unfold stripOne
  rw [index_of_getElem? hp, Outcome.ok_bind, index_of_getElem? hsize, Outcome.ok_bind, data, Outcome.ok_bind]
  by_cases short : d.1.length < sessionHeaderSize
  · rw [if_pos short]
    rfl
  · rw [if_neg short]
    obtain ⟨h, hh⟩ := decode_of_le (Nat.le_of_not_lt short)
    rw [accepts_of_decode (Nat.le_of_not_lt short) hh, Bool.not_eq_false'] at no
    rw [hh]
    simp only [no, if_pos]
    rfl

theorem stripOne_keep (shows : s.buffers.Shows i d) (yes : accepts admits i d.1 = true) (before : s.out ≤ i) :
    ∃ dst heard, s.buffers.packets[s.out]? = some dst ∧ stripOne admits onRecv i s =
      .ok ⟨s.out + 1, s.buffers.store s.out (copy dst (d.1.drop sessionHeaderSize))
        (d.1.drop sessionHeaderSize).length d.2, heard⟩ := by
  obtain ⟨packet, hp, -, data⟩ := shows.fits
  obtain ⟨ltPackets, ltSizes, ltEps⟩ := shows.lt
  obtain ⟨-, -, hsize, hep, -⟩ := shows
  have room : sessionHeaderSize ≤ d.1.length := by
    rw [accepts, Bool.and_eq_true, decide_eq_true_iff] at yes
    exact yes.1
  obtain ⟨h, hh⟩ := decode_of_le room
  rw [accepts_of_decode room hh, Bool.not_eq_true'] at yes
  obtain ⟨dst, hdst⟩ : ∃ dst, s.buffers.packets[s.out]? = some dst :=
    ⟨_, List.getElem?_eq_getElem (Nat.lt_of_le_of_lt before ltPackets)⟩
  refine ⟨dst, if onRecv then s.heard ++ [h] else s.heard, hdst, ?_⟩
  unfold stripOne
  rw [index_of_getElem? hp, Outcome.ok_bind, index_of_getElem? hsize, Outcome.ok_bind, data, Outcome.ok_bind,
    if_neg (by omega), hh]
  simp only [yes, sliceFrom_of_le room, Outcome.ok_bind, index_of_getElem? hdst, index_of_getElem? hep,
    assign_of_lt (Nat.lt_of_le_of_lt before ltPackets), assign_of_lt (Nat.lt_of_le_of_lt before ltSizes),
    assign_of_lt (Nat.lt_of_le_of_lt before ltEps)]
  rfl

end Turn

/-- The loop after `i` datagrams. -/
structure Stripped (admits : Option (ℕ → SessionHeader → Bool)) (l : List (Datagram ε)) (m i : ℕ) (s : Stripping ε) :
    Prop where
  kept : s.buffers.Holds (stripped admits (l.take i))
  out : s.out = (stripped admits (l.take i)).length
  rest : ∀ j d, i ≤ j → l[j]? = some d → s.buffers.Shows j d
  size : ∀ p ∈ s.buffers.packets, p.length = m

theorem length_stripped_le (admits : Option (ℕ → SessionHeader → Bool)) (l : List (Datagram ε)) :
    (stripped admits l).length ≤ l.length := by
  rw [stripped, List.length_map]
  exact (List.length_filter_le _ _).trans (by simp)

namespace Stripped

variable {admits : Option (ℕ → SessionHeader → Bool)} (onRecv : Bool) {l : List (Datagram ε)} {m i : ℕ}
  {s : Stripping ε}

theorem one {d : Datagram ε} (inv : Stripped admits l m i s) (hd : l[i]? = some d) :
    ∃ s', stripOne admits onRecv i s = .ok s' ∧ Stripped admits l m (i + 1) s' := by
  have shows := inv.rest i d le_rfl hd
  have upto : l.take (i + 1) = l.take i ++ [d] := by
    rw [List.take_add_one, hd]
    rfl
  have length : (l.take i).length = i := by
    have := (List.getElem?_eq_some_iff.mp hd).1
    rw [List.length_take]
    omega
  have next := stripped_concat admits (l.take i) d
  rw [← upto, length] at next
  cases verdict : accepts admits i d.1 with
  | false =>
    rw [verdict, if_neg (by decide), List.append_nil] at next
    refine ⟨s, stripOne_skip onRecv shows verdict, ?_⟩
    exact ⟨by rw [next]; exact inv.kept, by rw [next]; exact inv.out, fun j d hj => inv.rest j d (by omega), inv.size⟩
  | true =>
    rw [verdict, if_pos rfl] at next
    -- The buffer that is written is at or before the one that is read.
    have before : s.out ≤ i := by
      have := length_stripped_le admits (l.take i)
      rw [inv.out]
      omega
    obtain ⟨dst, heard, hdst, step⟩ := stripOne_keep onRecv shows verdict before
    obtain ⟨packet, hp, fits, -⟩ := shows.fits
    have same : dst.length = packet.length := by
      rw [inv.size dst (List.mem_of_getElem? hdst), inv.size packet (List.mem_of_getElem? hp)]
    have room : (d.1.drop sessionHeaderSize).length ≤ dst.length := by
      rw [List.length_drop]
      omega
    obtain ⟨ltPackets, ltSizes, ltEps⟩ := shows.lt
    refine ⟨_, step, ?_, ?_, ?_, ?_⟩
    · intro j e he
      rw [next] at he
      by_cases hj : j < (stripped admits (l.take i)).length
      · rw [List.getElem?_append_left hj] at he
        exact (inv.kept j e he).store_of_ne (by rw [inv.out]; omega) _ _ _
      · have last : j = s.out := by
          have := (List.getElem?_eq_some_iff.mp he).1
          rw [List.length_append, List.length_singleton] at this
          rw [inv.out]
          omega
        rw [last, inv.out, List.getElem?_concat_length] at he
        cases he
        subst last
        exact ⟨_, List.getElem?_set_self (by omega), List.getElem?_set_self (by omega),
          List.getElem?_set_self (by omega), take_copy room⟩
    · rw [next, List.length_append, inv.out]
      rfl
    · intro j e hj he
      exact (inv.rest j e (by omega) he).store_of_ne (by omega) _ _ _
    · intro p hmem
      rcases List.mem_or_eq_of_mem_set hmem with old | rfl
      · exact inv.size p old
      · rw [length_copy]
        exact inv.size dst (List.mem_of_getElem? hdst)

theorem loop (k : ℕ) (inv : Stripped admits l m i s) (len : i + k = l.length) :
    ∃ s', stripLoop admits onRecv k i s = .ok s' ∧ Stripped admits l m l.length s' := by
  induction k generalizing i s with
  | zero =>
    rw [Nat.add_zero] at len
    exact ⟨s, rfl, len ▸ inv⟩
  | succ k ih =>
    obtain ⟨s₁, step, inv₁⟩ := inv.one onRecv (List.getElem?_eq_getElem (show i < l.length by omega))
    obtain ⟨s', steps, inv'⟩ := ih inv₁ (by omega)
    exact ⟨s', by rw [stripLoop, step, Outcome.ok_bind, steps], inv'⟩

end Stripped

inductive BindOp (ε : Type) where
  | loadEpoch
  | addSeq
  | realSend (framed : List (List UInt8)) (ep : ε)
  | storeEpoch (epoch : UInt32)

def BindOp.Res : BindOp ε → Type
  | loadEpoch => UInt32
  | addSeq => UInt64
  | realSend _ _ => Option String
  | storeEpoch _ => Unit

abbrev BindSig (ε : Type) : Sig := ⟨BindOp ε, BindOp.Res⟩

/-- The operations; what is not settled is whether the real `Send` fails. -/
def bindSystem (ι ε : Type) : System ι (BindSig ε) SessionBind (Option String) where
  exec err _ o s := match o with
    | .loadEpoch => some (s.epoch, s)
    | .addSeq => some (s.seq + 1, { s with seq := s.seq + 1 })
    | .realSend _ _ => some (err, s)
    | .storeEpoch epoch => some ((), s.setEpoch epoch)

def dataHeader (sessionID : UInt64) (epoch : UInt32) (seq : UInt64) : SessionHeader where
  version := version
  type := packetTypeData
  direction := .upstream
  sessionID := sessionID
  epoch := epoch
  sessionSeq := seq

def frame (h : SessionHeader) (buf : List UInt8) : Except String (List UInt8) :=
  match h.encodeTo (List.replicate sessionHeaderSize 0) with
  | .error e => .error ("tunnel: encode session header: " ++ e)
  | .ok out => .ok (out ++ buf)

/-- The loop of `Send`, with what it has framed. -/
def frameAll (sessionID : UInt64) (framed : List (List UInt8)) :
    List (List UInt8) → Prog (BindSig ε) (Except String (List (List UInt8)))
  | [] => return .ok framed
  | buf :: bufs => do
    let epoch ← Prog.call (S := BindSig ε) .loadEpoch
    let seq ← Prog.call (S := BindSig ε) .addSeq
    match frame (dataHeader sessionID epoch seq) buf with
    | .error e => return .error e
    | .ok out => frameAll sessionID (framed ++ [out]) bufs

def send (sessionID : UInt64) (bufs : List (List UInt8)) (ep : ε) : Prog (BindSig ε) (Option String) := do
  match ← frameAll sessionID [] bufs with
  | .error e => return some e
  | .ok framed => Prog.call (S := BindSig ε) (.realSend framed ep)

inductive BindCall (ε : Type) where
  | send (bufs : List (List UInt8)) (ep : ε)
  | setEpoch (epoch : UInt32)

variable {ι : Type}

def numbers (hist : List (Entry ι (BindSig ε) SessionBind)) : List (ι × UInt64) :=
  hist.filterMap fun
    | ⟨t, .addSeq, seq, _, _⟩ => some (t, seq)
    | _ => none

/-- What the real bind was asked to send. -/
def emissions (hist : List (Entry ι (BindSig ε) SessionBind)) : List (ι × List (List UInt8) × ε) :=
  hist.filterMap fun
    | ⟨t, .realSend framed ep, _, _, _⟩ => some (t, framed, ep)
    | _ => none

def frames (hs : List SessionHeader) (bufs : List (List UInt8)) : List (List UInt8) :=
  List.zipWith (fun h buf => h.encode ++ buf) hs bufs

/-! ### What a thread may do -/

/-- Where a call is, with the headers it has made. -/
inductive Sending (ε : Type) where
  | framing (bufs : List (List UInt8)) (ep : ε) (hs : List SessionHeader)
  | loaded (bufs : List (List UInt8)) (ep : ε) (hs : List SessionHeader) (epoch : UInt32)
  | sent (bufs : List (List UInt8)) (ep : ε) (hs : List SessionHeader)
  | setting (epoch : UInt32)
  | set

namespace Sending

def headers : Sending ε → List SessionHeader
  | framing _ _ hs | loaded _ _ hs _ | sent _ _ hs => hs
  | _ => []

def Of : Sending ε → BindCall ε → Prop
  | framing bufs ep _, call | loaded bufs ep _ _, call | sent bufs ep _, call => call = .send bufs ep
  | _, _ => True

/-- The operations a call may make where it is. -/
inductive Turn (sessionID : UInt64) : Sending ε → (o : (BindSig ε).Op) → (BindSig ε).Res o → Sending ε → Prop
  | load {bufs : List (List UInt8)} {ep : ε} {hs : List SessionHeader} {epoch : UInt32} :
      Turn sessionID (.framing bufs ep hs) .loadEpoch epoch (.loaded bufs ep hs epoch)
  | number {bufs : List (List UInt8)} {ep : ε} {hs : List SessionHeader} {epoch : UInt32} {seq : UInt64} :
      Turn sessionID (.loaded bufs ep hs epoch) .addSeq seq (.framing bufs ep (hs ++ [dataHeader sessionID epoch seq]))
  | emit {bufs : List (List UInt8)} {ep : ε} {hs : List SessionHeader} {err : Option String}
      (all : hs.length = bufs.length) :
      Turn sessionID (.framing bufs ep hs) (.realSend (frames hs bufs) ep) err (.sent bufs ep hs)
  | store {epoch : UInt32} {r : Unit} : Turn sessionID (.setting epoch) (.storeEpoch epoch) r .set

open Classical in
noncomputable def next (sessionID : UInt64) :
    Sending ε → (o : (BindSig ε).Op) → (BindSig ε).Res o → Option (Sending ε)
  | framing bufs ep hs, .loadEpoch, epoch => some (.loaded bufs ep hs epoch)
  | loaded bufs ep hs epoch, .addSeq, seq => some (.framing bufs ep (hs ++ [dataHeader sessionID epoch seq]))
  | framing bufs ep hs, .realSend framed ep', _ =>
    if hs.length = bufs.length ∧ framed = frames hs bufs ∧ ep' = ep then some (.sent bufs ep hs) else none
  | setting epoch, .storeEpoch epoch', _ => if epoch' = epoch then some .set else none
  | _, _, _ => none

theorem Turn.of_next {sessionID : UInt64} {h h' : Sending ε} {o : (BindSig ε).Op} {r : (BindSig ε).Res o}
    (step : next sessionID h o r = some h') : Turn sessionID h o r h' := by
  unfold next at step
  split at step
  · cases step
    exact .load
  · cases step
    exact .number
  · split_ifs at step with cond
    obtain ⟨all, rfl, rfl⟩ := cond
    cases step
    exact .emit all
  · split_ifs at step with cond
    subst cond
    cases step
    exact .store
  · cases step

end Sending

section Follows

variable {sessionID : UInt64}

def Sending.start : BindCall ε → Sending ε
  | .send bufs ep => .framing bufs ep []
  | .setEpoch epoch => .setting epoch

end Follows

/-! ### Runs -/

/-- The epoch was in force during the call. -/
def Current (hist : List (Entry ι (BindSig ε) SessionBind)) (t : ι) (epoch : UInt32) : Prop :=
  ∃ e ∈ hist, e.tid = t ∧ e.pre.epoch = epoch

theorem current_mono {hist : List (Entry ι (BindSig ε) SessionBind)} {t : ι} {epoch : UInt32}
    (cur : Current hist t epoch)
    (e : Entry ι (BindSig ε) SessionBind) : Current (hist ++ [e]) t epoch := by
  obtain ⟨e', he', same⟩ := cur
  exact ⟨e', List.mem_append_left _ he', same⟩

theorem current_last {hist : List (Entry ι (BindSig ε) SessionBind)} (e : Entry ι (BindSig ε) SessionBind) :
    Current (hist ++ [e]) e.tid e.pre.epoch :=
  ⟨e, by simp, rfl, rfl⟩

/-- Every number is given out once. -/
structure Numbered [DecidableEq ι] (sessionID : UInt64) (calls : ι → BindCall ε)
    (w : World ι (BindSig ε) SessionBind) (hs : ι → Sending ε) : Prop where
  call : ∀ t, (hs t).Of (calls t)
  seq : w.st.seq = .ofNat (numbers w.hist).length
  order : (numbers w.hist).map Prod.snd = (List.range (numbers w.hist).length).map fun k => .ofNat (k + 1)
  own : ∀ t, ((numbers w.hist).filter fun x => x.1 = t).map Prod.snd = (hs t).headers.map SessionHeader.sessionSeq
  session : ∀ t, ∀ h ∈ (hs t).headers, h.sessionID = sessionID
  epoch : ∀ t, ∀ h ∈ (hs t).headers, Current w.hist t h.epoch
  loaded : ∀ t bufs ep l epoch, hs t = .loaded bufs ep l epoch → Current w.hist t epoch
  once : ((emissions w.hist).map Prod.fst).Nodup
  emitted : ∀ x ∈ emissions w.hist, ∃ bufs l, hs x.1 = .sent bufs x.2.2 l ∧ l.length = bufs.length ∧
    x.2.1 = frames l bufs

namespace Numbered

variable [DecidableEq ι] {sessionID : UInt64} {calls : ι → BindCall ε} {w : World ι (BindSig ε) SessionBind}
  {hs : ι → Sending ε} {t : ι} {o : (BindSig ε).Op} {r : (BindSig ε).Res o} {s' : SessionBind} {h' : Sending ε}

section

variable (inv : Numbered sessionID calls w hs)
include inv

theorem ne_of_emitted (unsent : ∀ bufs ep l, hs t ≠ .sent bufs ep l)
    {x : ι × List (List UInt8) × ε} (hx : x ∈ emissions w.hist) : x.1 ≠ t := by
  obtain ⟨bufs, l, hsent, -⟩ := inv.emitted x hx
  exact fun h => unsent bufs x.2.2 l (h ▸ hsent)

theorem emitted_update (unsent : ∀ bufs ep l, hs t ≠ .sent bufs ep l)
    {x : ι × List (List UInt8) × ε} (hx : x ∈ emissions w.hist) :
    ∃ bufs l, update hs t h' x.1 = .sent bufs x.2.2 l ∧ l.length = bufs.length ∧ x.2.1 = frames l bufs := by
  rw [update_of_ne (inv.ne_of_emitted unsent hx)]
  exact inv.emitted x hx

theorem keep (none : numbers [⟨t, o, r, w.st, s'⟩] = [])
    (seq : s'.seq = w.st.seq) (headers : h'.headers = (hs t).headers) (call : h'.Of (calls t))
    (unsent : ∀ bufs ep l, hs t ≠ .sent bufs ep l)
    (loaded : ∀ bufs ep l epoch, h' = .loaded bufs ep l epoch → epoch = w.st.epoch)
    (emitted : emissions [⟨t, o, r, w.st, s'⟩] = [] ∨ ∃ bufs ep l, h' = .sent bufs ep l ∧ l.length = bufs.length ∧
      emissions [⟨t, o, r, w.st, s'⟩] = [(t, frames l bufs, ep)]) :
    Numbered sessionID calls (w.push t o r s') (update hs t h') := by
  have given : numbers (w.push t o r s').hist = numbers w.hist := by
    rw [World.push_hist, numbers, List.filterMap_append]
    exact (congrArg (numbers w.hist ++ ·) none).trans (List.append_nil _)
  have sends : emissions (w.push t o r s').hist = emissions w.hist ++ emissions [⟨t, o, r, w.st, s'⟩] :=
    List.filterMap_append
  have same : ∀ u, (update hs t h' u).headers = (hs u).headers := by
    intro u
    by_cases hu : u = t
    · rw [hu, update_self, headers]
    · rw [update_of_ne hu]
  refine ⟨fun u => ?_, ?_, ?_, fun u => ?_, fun u h hh => ?_, fun u h hh => ?_, fun u bufs ep l epoch hu => ?_, ?_,
    fun x hx => ?_⟩
  · by_cases hu : u = t
    · subst hu
      rwa [update_self]
    · rw [update_of_ne hu]
      exact inv.call u
  · rw [given, World.push_st, seq]
    exact inv.seq
  · rw [given]
    exact inv.order
  · rw [given, same]
    exact inv.own u
  · rw [same] at hh
    exact inv.session u h hh
  · rw [same] at hh
    exact current_mono (inv.epoch u h hh) _
  · by_cases hut : u = t
    · subst hut
      rw [update_self] at hu
      rw [loaded bufs ep l epoch hu]
      exact current_last _
    · rw [update_of_ne hut] at hu
      exact current_mono (inv.loaded u bufs ep l epoch hu) _
  · rcases emitted with quiet | ⟨bufs, ep, l, -, -, one⟩
    · rw [sends, quiet, List.append_nil]
      exact inv.once
    · rw [sends, one, List.map_append]
      refine List.nodup_append.mpr ⟨inv.once, List.nodup_singleton _, fun u hu v hv => ?_⟩
      obtain ⟨x, hx, rfl⟩ := List.mem_map.mp hu
      rw [List.mem_singleton.mp hv]
      exact inv.ne_of_emitted unsent hx
  · rw [sends] at hx
    rcases List.mem_append.mp hx with old | new
    · exact inv.emitted_update unsent old
    · rcases emitted with quiet | ⟨bufs, ep, l, hsent, all, one⟩
      · rw [quiet] at new
        cases new
      · rw [one] at new
        obtain rfl := List.mem_singleton.mp new
        exact ⟨bufs, l, by rw [update_self, hsent], all, rfl⟩

theorem number {bufs : List (List UInt8)} {ep : ε} {l : List SessionHeader}
    {epoch : UInt32} (ht : hs t = .loaded bufs ep l epoch) :
    Numbered sessionID calls (w.push t .addSeq (w.st.seq + 1) { w.st with seq := w.st.seq + 1 })
      (update hs t (.framing bufs ep (l ++ [dataHeader sessionID epoch (w.st.seq + 1)]))) := by
  have given : numbers (w.push t (S := BindSig ε) .addSeq (w.st.seq + 1) { w.st with seq := w.st.seq + 1 }).hist =
      numbers w.hist ++ [(t, w.st.seq + 1)] := by
    rw [World.push_hist, numbers, List.filterMap_append]
    rfl
  have sends : emissions (w.push t (S := BindSig ε) .addSeq (w.st.seq + 1) { w.st with seq := w.st.seq + 1 }).hist =
      emissions w.hist := by
    rw [World.push_hist, emissions, List.filterMap_append]
    exact List.append_nil _
  have call := inv.call t
  rw [ht] at call
  have step : w.st.seq + 1 = .ofNat ((numbers w.hist).length + 1) := by rw [inv.seq]; simp
  refine ⟨fun u => ?_, ?_, ?_, fun u => ?_, fun u h hh => ?_, fun u h hh => ?_, fun u bufs' ep' l' epoch' hu => ?_,
    ?_, fun x hx => ?_⟩
  · by_cases hu : u = t
    · subst hu
      rw [update_self]
      exact call
    · rw [update_of_ne hu]
      exact inv.call u
  · rw [given, List.length_append]
    exact step
  · rw [given, List.map_append, inv.order, List.length_append, List.length_singleton, List.range_succ, List.map_append]
    exact congrArg (_ ++ [·]) step
  · rw [given, List.filter_append, List.map_append, inv.own]
    by_cases hu : u = t
    · subst hu
      rw [update_self, ht]
      simp [Sending.headers, dataHeader]
    · rw [update_of_ne hu]
      simp [Ne.symm hu]
  · by_cases hu : u = t
    · subst hu
      rw [update_self] at hh
      rcases List.mem_append.mp hh with old | new
      · exact inv.session u h (by rw [ht]; exact old)
      · rw [List.mem_singleton.mp new]
        rfl
    · rw [update_of_ne hu] at hh
      exact inv.session u h hh
  · by_cases hu : u = t
    · subst hu
      rw [update_self] at hh
      rcases List.mem_append.mp hh with old | new
      · exact current_mono (inv.epoch u h (by rw [ht]; exact old)) _
      · rw [List.mem_singleton.mp new]
        exact current_mono (inv.loaded u bufs ep l epoch ht) _
    · rw [update_of_ne hu] at hh
      exact current_mono (inv.epoch u h hh) _
  · by_cases hut : u = t
    · subst hut
      rw [update_self] at hu
      cases hu
    · rw [update_of_ne hut] at hu
      exact current_mono (inv.loaded u bufs' ep' l' epoch' hu) _
  · rw [sends]
    exact inv.once
  · rw [sends] at hx
    exact inv.emitted_update (by simp [ht]) hx

theorem push {err : Option String} (exec : (bindSystem ι ε).exec err t o w.st = some (r, s'))
    (turn : Sending.Turn sessionID (hs t) o r h') :
    Numbered sessionID calls (w.push t o r s') (update hs t h') := by
  have call := inv.call t
  generalize ht : hs t = h at turn call
  cases turn with
  | load =>
    cases exec
    refine inv.keep rfl rfl (by rw [ht]; rfl) call (by simp [ht]) (fun _ _ _ _ h => ?_) (.inl rfl)
    cases h
    rfl
  | number =>
    cases exec
    exact inv.number ht
  | emit all =>
    cases exec
    exact inv.keep rfl rfl (by rw [ht]; rfl) call (by simp [ht]) (fun _ _ _ _ h => by cases h)
      (.inr ⟨_, _, _, rfl, all, rfl⟩)
  | store =>
    cases exec
    exact inv.keep rfl rfl (by rw [ht]; rfl) trivial (by simp [ht]) (fun _ _ _ _ h => by cases h) (.inl rfl)

end

end Numbered

section Runs

variable [DecidableEq ι] {sessionID : UInt64} {epoch : UInt32} {calls : ι → BindCall ε}
  {c : Config ι (BindSig ε) SessionBind (Option String)}

variable {l : List SessionHeader} {bufs : List (List UInt8)}

variable {w : World ι (BindSig ε) SessionBind} {hs : ι → Sending ε}

section

variable (inv : Numbered sessionID calls w hs)
include inv

end

end Runs

namespace Sample

end Sample

end Egressa.Tunnel
