import Egressa.IPsec.Config
import Egressa.Maps
import Egressa.Settings
import Egressa.Strconv

/-!
# Connections as charon gets them

A connection can be given to charon as text in `swanctl.conf` (`Render`, `internal/ipsec/config.go`), or in a message
over vici (`connMessage`, `internal/ipsec/vici.go`).
-/

namespace Egressa.IPsec

open Settings

/-! ## Fields as text -/

/-- `Addr.String` and `Prefix.String` of `net/netip`: all that is used is that they write a valid address, without its
zone, or prefix in digits, colons, dots and slashes. -/
structure AddrText where
  addr : NetAddr → String
  pfx : NetPrefix → String
  addr_element : ∀ a, a.isValid = true → a.zone = "" → Element (addr a)
  pfx_element : ∀ p, p.isValid = true → Element (pfx p)

def AuthMethod.text : AuthMethod → String
  | psk => "psk"
  | pubkey => "pubkey"
  | unknown s => s

def StartAction.text : StartAction → String
  | unset => ""
  | none => "none"
  | start => "start"
  | unknown s => s

def defaultIKEProposals : List String := ["aes256gcm16-prfsha256-x25519"]

def defaultESPProposals : List String := ["aes256gcm16-x25519"]

def ceilSeconds (d : Int64) : ℤ :=
  if d.toInt.tmod 1000000000 ≠ 0 then d.toInt.tdiv 1000000000 + 1 else d.toInt.tdiv 1000000000

namespace Connection

variable (c : Connection)

def ike : List String := if c.ikeProposals.isEmpty then defaultIKEProposals else c.ikeProposals

def esp : List String := if c.espProposals.isEmpty then defaultESPProposals else c.espProposals

def startAction : StartAction := if c.start = .unset then .none else c.start

end Connection

/-! ## `swanctl.conf` -/

variable (text : AddrText)

/-- A comma-separated list. -/
def joinPrefixes (ps : List NetPrefix) : String := ",".intercalate (ps.map fun p => text.pfx (maskPrefix p))

def renderParty (party : String) (auth : AuthMethod) (id pubkey : String) : String :=
  "    " ++ party ++ " \x7b\n" ++ ("      auth = " ++ auth.text ++ "\n" ++ ("      id = " ++ id ++ "\n") ++
    (if auth = .pubkey then "      pubkeys = " ++ pubkey ++ "\n" else "")) ++
  "    \x7d\n"

def renderChild (c : Connection) : String :=
  "      " ++ childName c.name c.epoch ++ " \x7b\n" ++
    ("        local_ts = " ++ joinPrefixes text c.localTS ++ "\n" ++
    ("        remote_ts = " ++ joinPrefixes text c.remoteTS ++ "\n") ++
    ("        esp_proposals = " ++ ",".intercalate c.esp ++ "\n") ++
    "        mode = tunnel\n" ++
    ("        if_id_in = " ++ c.ifID.toNat.repr ++ "\n") ++
    ("        if_id_out = " ++ c.ifID.toNat.repr ++ "\n") ++
    ("        start_action = " ++ c.startAction.text ++ "\n") ++
    (if 0 < c.dpdDelay then "        dpd_action = clear\n" else "")) ++
  "      \x7d\n"

/-- The section of a connection. -/
def renderConnection (c : Connection) : String :=
  "  " ++ c.name ++ " \x7b\n" ++ ("    version = 2\n" ++
    (if c.localAddr.isValid then "    local_addrs = " ++ text.addr c.localAddr ++ "\n" else "") ++
    (if c.remoteAddr.isValid then "    remote_addrs = " ++ text.addr c.remoteAddr ++ "\n"
      else "    remote_addrs = %any\n") ++
    ("    proposals = " ++ ",".intercalate c.ike ++ "\n") ++
    (if 0 < c.dpdDelay then "    dpd_delay = " ++ ((ceilSeconds c.dpdDelay).repr ++ "s") ++ "\n" else "") ++
    renderParty "local" c.auth c.localID c.localPubkey ++
    renderParty "remote" c.auth c.remoteID c.remotePubkey ++
    ("    children \x7b\n" ++ renderChild text c ++ "    \x7d\n")) ++
  "  \x7d\n"

def renderSecret (c : Connection) : String :=
  "  " ++ ("ike-" ++ c.name) ++ " \x7b\n" ++ ("    id-1 = " ++ c.localID ++ "\n" ++
    ("    id-2 = " ++ c.remoteID ++ "\n") ++
    ("    secret = " ++ ("0x" ++ encodeToString c.psk.toUTF8.data.toList) ++ "\n")) ++
  "  \x7d\n"

inductive ConnErr where
  | invalid (e : Err)
  | duplicateName (name : String)
  | sharedIfID (other name : String) (ifID : UInt32)
  | onlyPSK (name : String)
  deriving DecidableEq, Repr

/-- The loop of `Render` over the sorted connections; `before` is the name of the one before. -/
def checkSorted (before : Option String) : List Connection → Except ConnErr Unit
  | [] => .ok ()
  | c :: cs => match c.validate with
    | .error e => .error (.invalid e)
    | .ok () => if before = some c.name then .error (.duplicateName c.name) else checkSorted (some c.name) cs

/-- No two connections share an interface ID. -/
def checkIfIDs (ifIDs : Maps.Map UInt32 String) : List Connection → Except ConnErr Unit
  | [] => .ok ()
  | c :: cs => match ifIDs.lookup c.ifID with
    | some other => .error (.sharedIfID other c.name c.ifID)
    | none => checkIfIDs (ifIDs.insert c.ifID c.name) cs

/-- `sort.Slice` does not say in which order it leaves equal names, and they are refused. -/
def sorted (conns : List Connection) : List Connection := conns.insertionSort fun a b => a.name ≤ b.name

def rendered (conns : List Connection) : String :=
  "# Generated by egressa (internal/ipsec). Do not edit by hand.\n" ++
  ("connections \x7b\n" ++ String.join (conns.map (renderConnection text)) ++ "\x7d\n") ++
  (if (conns.filter fun c => c.auth = .psk) ≠ [] then
    "secrets \x7b\n" ++ String.join ((conns.filter fun c => c.auth = .psk).map renderSecret) ++ "\x7d\n"
  else "")

/-- `Render`: the file for a list of connections. -/
def render (conns : List Connection) : Except ConnErr String := do
  checkSorted none (sorted conns)
  checkIfIDs ∅ (sorted conns)
  return rendered text (sorted conns)

/-! ## vici -/

/-- A field of a vici message. -/
inductive Field where
  | str (key value : String)
  | list (key : String) (values : List String)
  | sect (key : String) (fields : List Field)

def Field.key : Field → String
  | str key _ | list key _ | sect key _ => key

/-- A field set twice keeps its place. -/
def setField (m : List Field) (f : Field) : List Field :=
  if m.any fun g => g.key == f.key then m.map fun g => if g.key == f.key then f else g else m ++ [f]

def newMsg (fields : List Field) : List Field := fields.foldl setField []

def prefixList (ps : List NetPrefix) : List String := ps.map fun p => text.pfx (maskPrefix p)

def childMessage (c : Connection) : List Field :=
  let child := newMsg [.list "local_ts" (prefixList text c.localTS), .list "remote_ts" (prefixList text c.remoteTS),
    .list "esp_proposals" c.esp, .str "mode" "tunnel", .str "if_id_in" c.ifID.toNat.repr,
    .str "if_id_out" c.ifID.toNat.repr, .str "start_action" c.startAction.text]
  if 0 < c.dpdDelay then setField child (.str "dpd_action" "clear") else child

/-- The vici message of a connection. -/
def connMessage (c : Connection) : Except ConnErr (List Field) :=
  if c.auth ≠ .psk then .error (.onlyPSK c.name)
  else
    let remote := if c.remoteAddr.isValid then text.addr c.remoteAddr else anyID
    let conn := newMsg [.str "version" "2"]
    let conn := if c.localAddr.isValid then setField conn (.list "local_addrs" [text.addr c.localAddr]) else conn
    let conn := setField conn (.list "remote_addrs" [remote])
    let conn := setField conn (.list "proposals" c.ike)
    let conn :=
      if 0 < c.dpdDelay then setField conn (.str "dpd_delay" ((ceilSeconds c.dpdDelay).repr ++ "s")) else conn
    let conn := setField conn (.sect "local" (newMsg [.str "auth" c.auth.text, .str "id" c.localID]))
    let conn := setField conn (.sect "remote" (newMsg [.str "auth" c.auth.text, .str "id" c.remoteID]))
    let conn := setField conn (.sect "children" (newMsg [.sect (childName c.name c.epoch) (childMessage text c)]))
    .ok (newMsg [.sect c.name conn])

def multiValue (key : String) : Bool :=
  ["local_addrs", "remote_addrs", "proposals", "local_ts", "remote_ts", "esp_proposals"].contains key

mutual

/-- The field that a settings entry stands for. -/
def fieldOf : Item → Field
  | .entry key v => if multiValue key then .list key (commas v) else .str key v
  | .sect name items => .sect name (fieldsOf items)

def fieldsOf : List Item → List Field
  | [] => []
  | i :: items => fieldOf i :: fieldsOf items

end

/-! ## What a valid connection is made of -/

theorem mem_of_special {c : Char} (h : special c = true) : c ∈ [' ', '\t', '\n', '\r', '#', '{', '}', '='] := by
  simp only [special, blank, stops, Bool.or_eq_true, beq_iff_eq] at h
  simp only [List.mem_cons, List.not_mem_nil, or_false]
  tauto

variable {s : String}

theorem element_of_matchesRE {first rest : Char → Bool} {n : ℕ} (h : matchesRE first rest n s = true)
    (safe : ∀ c ∈ [' ', '\t', '\n', '\r', '#', '{', '}', '=', ','], first c = false ∧ rest c = false) : Element s := by
  have covered : s ≠ "" ∧ ∀ c ∈ s.toList, first c = true ∨ rest c = true := by
    unfold matchesRE at h
    split at h
    · cases h
    · next c cs hs =>
      simp only [Bool.and_eq_true, List.all_eq_true] at h
      refine ⟨fun empty => by simp [empty] at hs, ?_⟩
      rw [hs]
      exact List.forall_mem_cons.2 ⟨.inl h.1.1, fun d hd => .inr (h.2 d hd)⟩
  have unsafe_ : ∀ c ∈ [' ', '\t', '\n', '\r', '#', '{', '}', '=', ','], c ∉ s.toList := by
    intro c hc hs
    obtain ⟨hfirst, hrest⟩ := safe c hc
    rcases covered.2 c hs with h | h
    · exact absurd h (by simp [hfirst])
    · exact absurd h (by simp [hrest])
  refine ⟨⟨covered.1, fun c hc => Bool.eq_false_iff.2 fun bad => ?_⟩, unsafe_ ',' (by simp)⟩
  exact unsafe_ c (List.mem_append_left [','] (mem_of_special bad)) hc

theorem element_of_nameRE (h : nameRE s = true) : Element s := element_of_matchesRE h (by simp [alnum])

theorem element_of_idRE (h : idRE s = true) : Element s := element_of_matchesRE h (by simp [alnum])

theorem element_of_fileRE (h : fileRE s = true) : Element s := element_of_matchesRE h (by simp [alnum])

theorem element_of_proposalRE (h : proposalRE s = true) : Element s := element_of_matchesRE h (by simp [lowerAlnum])

theorem element_repr (n : ℕ) : Element n.repr := by
  have digits : ∀ c ∈ n.repr.toList, c.isDigit = true := by
    intro c hc
    rw [Nat.toList_repr] at hc
    exact Nat.isDigit_of_mem_toDigits (by omega) (by omega) hc
  have others : ∀ c ∈ [' ', '\t', '\n', '\r', '#', '{', '}', '=', ','], c.isDigit = false := by simp [Char.isDigit]
  refine ⟨⟨Nat.repr_ne_empty, fun c hc => Bool.eq_false_iff.2 fun bad => ?_⟩, fun comma => ?_⟩
  · have := others c (List.mem_append_left [','] (mem_of_special bad))
    exact absurd (digits c hc) (by simp [this])
  · exact absurd (digits ',' comma) (by decide)

theorem word_int_repr (n : ℤ) : Word n.repr := by
  cases n with
  | ofNat n => exact (element_repr n).word
  | negSucc n =>
    have sign : Word "-" := by simp [Word, special, blank, stops]
    exact sign.append (element_repr _).word.2

theorem plain_encodeToString (bytes : List UInt8) :
    ∀ c ∈ (encodeToString bytes).toList, special c = false ∧ c ≠ ',' := by
  intro c hc
  rw [encodeToString, String.toList_ofList] at hc
  obtain ⟨b, -, hc⟩ := List.mem_flatMap.1 hc
  have digits : ∀ n < 16, special (Nat.digitChar n) = false ∧ Nat.digitChar n ≠ ',' := by decide
  have below := b.toNat_lt
  simp only [hexByte, List.mem_cons, List.not_mem_nil, or_false] at hc
  rcases hc with rfl | rfl
  · exact digits _ (by omega)
  · exact digits _ (by omega)

theorem word_encodeToString (bytes : List UInt8) : Word ("0x" ++ encodeToString bytes) := by
  have mark : Word "0x" := by simp [Word, special, blank, stops]
  exact mark.append fun c hc => (plain_encodeToString bytes c hc).1

namespace Connection

/-- What `Validate` says of a connection. -/
structure Valid (c : Connection) : Prop where
  name : nameRE c.name = true
  localZone : c.localAddr.zone = ""
  remoteZone : c.remoteAddr.zone = ""
  localID : idRE c.localID = true
  remoteID : c.remoteID = anyID ∨ idRE c.remoteID = true
  auth : c.validateAuth = .ok ()
  localTS : c.localTS ≠ [] ∧ ∀ p ∈ c.localTS, p.isValid = true
  remoteTS : c.remoteTS ≠ [] ∧ ∀ p ∈ c.remoteTS, p.isValid = true
  ikeProposals : ∀ p ∈ c.ikeProposals, proposalRE p = true
  espProposals : ∀ p ∈ c.espProposals, proposalRE p = true
  start : c.validateStart = .ok ()

theorem valid_of_validate {c : Connection} (h : c.validate = .ok ()) : c.Valid := by
  -- What a check would refuse is not there.
  have refuted : ∀ {b : Bool} {e : Err}, (b = true → (throw e : Except Err Unit) = .ok ()) → b = false := by
    intro b e passed
    cases b with
    | false => rfl
    | true => exact absurd (passed rfl) (by simp [throw, throwThe, MonadExceptOf.throw])
  unfold validate at h
  obtain ⟨name, h⟩ := ok_of_check h
  replace h := (ok_of_check h).2
  obtain ⟨zones, h⟩ := ok_of_check h
  replace h := (ok_of_check h).2
  obtain ⟨localID, h⟩ := ok_of_check h
  obtain ⟨remoteID, h⟩ := ok_of_check h
  obtain ⟨u, auth, h⟩ := ok_of_bind h
  obtain ⟨nonempty, h⟩ := ok_of_check h
  obtain ⟨selectors, h⟩ := ok_of_check h
  replace h := (ok_of_check h).2
  cases found : (c.ikeProposals ++ c.espProposals).find? fun p => !proposalRE p with
  | some p =>
    simp only [found] at h
    cases h
  | none =>
    simp only [found] at h
    have start := (ok_of_check h).2
    have zones := Bool.or_eq_false_iff.1 (refuted zones)
    have nonempty := Bool.or_eq_false_iff.1 (refuted nonempty)
    have selectors := refuted selectors
    rw [List.any_append, Bool.or_eq_false_iff] at selectors
    rw [List.find?_append, Option.or_eq_none_iff] at found
    exact
      { name := by simpa using refuted name
        localZone := by simpa using zones.1
        remoteZone := by simpa using zones.2
        localID := by simpa using refuted localID
        remoteID := by simpa [or_iff_not_imp_left] using refuted remoteID
        auth := auth
        localTS := ⟨by simpa using nonempty.1, by simpa using selectors.1⟩
        remoteTS := ⟨by simpa using nonempty.2, by simpa using selectors.2⟩
        ikeProposals := by simpa using found.1
        espProposals := by simpa using found.2
        start := start }

variable {c : Connection} (valid : c.Valid)

namespace Valid

include valid

theorem word_name : Word c.name := (element_of_nameRE valid.name).word

theorem word_remoteID : Word c.remoteID := by
  rcases valid.remoteID with any | id
  · rw [any]
    simp [anyID, Word, special, blank, stops]
  · exact (element_of_idRE id).word

theorem word_auth : Word c.auth.text := by
  have known := valid.auth
  unfold validateAuth at known
  cases hauth : c.auth with
  | psk | pubkey => simp [AuthMethod.text, Word, special, blank, stops]
  | unknown s =>
    rw [hauth] at known
    cases known

theorem word_pubkeys (pubkey : c.auth = .pubkey) : Word c.localPubkey ∧ Word c.remotePubkey := by
  have plain := valid.auth
  simp only [validateAuth, pubkey] at plain
  split_ifs at plain with bad
  simp only [Bool.or_eq_true, Bool.not_eq_true', not_or, Bool.not_eq_false] at bad
  exact ⟨(element_of_fileRE bad.1).word, (element_of_fileRE bad.2).word⟩

theorem word_startAction : Word c.startAction.text := by
  have known := valid.start
  unfold validateStart at known
  cases hstart : c.start with
  | unset | none | start => simp [startAction, hstart, StartAction.text, Word, special, blank, stops]
  | unknown s =>
    rw [hstart] at known
    cases known

theorem element_ike : ∀ p ∈ c.ike, Element p := by
  unfold ike
  split_ifs
  · exact fun p hp => element_of_proposalRE (by simp_all [defaultIKEProposals, proposalRE, matchesRE, lowerAlnum])
  · exact fun p hp => element_of_proposalRE (valid.ikeProposals p hp)

theorem element_esp : ∀ p ∈ c.esp, Element p := by
  unfold esp
  split_ifs
  · exact fun p hp => element_of_proposalRE (by simp_all [defaultESPProposals, proposalRE, matchesRE, lowerAlnum])
  · exact fun p hp => element_of_proposalRE (valid.espProposals p hp)

end Valid

theorem ike_ne_nil (c : Connection) : c.ike ≠ [] := by
  unfold ike
  split_ifs with empty
  · exact List.cons_ne_nil _ _
  · simpa using empty

theorem esp_ne_nil (c : Connection) : c.esp ≠ [] := by
  unfold esp
  split_ifs with empty
  · exact List.cons_ne_nil _ _
  · simpa using empty

end Connection

theorem isValid_maskPrefix (p : NetPrefix) : (maskPrefix p).isValid = p.isValid := by cases p <;> rfl

theorem element_prefixList {ps : List NetPrefix} (valid : ∀ p ∈ ps, p.isValid = true) :
    ∀ s ∈ prefixList text ps, Element s := by
  intro s hs
  obtain ⟨p, hp, rfl⟩ := List.mem_map.1 hs
  exact text.pfx_element _ (by rw [isValid_maskPrefix, valid p hp])

/-! ## What the text says -/

def partyItems (auth : AuthMethod) (id pubkey : String) : List Item :=
  [Item.entry "auth" auth.text] ++ [Item.entry "id" id] ++
  (if auth = .pubkey then [Item.entry "pubkeys" pubkey] else [])

def childItems (c : Connection) : List Item :=
  [Item.entry "local_ts" (joinPrefixes text c.localTS)] ++ [Item.entry "remote_ts" (joinPrefixes text c.remoteTS)] ++
  [Item.entry "esp_proposals" (",".intercalate c.esp)] ++ [Item.entry "mode" "tunnel"] ++
  [Item.entry "if_id_in" c.ifID.toNat.repr] ++ [Item.entry "if_id_out" c.ifID.toNat.repr] ++
  [Item.entry "start_action" c.startAction.text] ++ (if 0 < c.dpdDelay then [Item.entry "dpd_action" "clear"] else [])

/-- The tree of a connection: which entries and sections there are does not depend on what its texts are. -/
def connItems (c : Connection) : List Item :=
  [Item.entry "version" "2"] ++
  (if c.localAddr.isValid then [Item.entry "local_addrs" (text.addr c.localAddr)] else []) ++
  (if c.remoteAddr.isValid then [Item.entry "remote_addrs" (text.addr c.remoteAddr)]
    else [Item.entry "remote_addrs" anyID]) ++
  [Item.entry "proposals" (",".intercalate c.ike)] ++
  (if 0 < c.dpdDelay then [Item.entry "dpd_delay" ((ceilSeconds c.dpdDelay).repr ++ "s")] else []) ++
  [Item.sect "local" (partyItems c.auth c.localID c.localPubkey)] ++
  [Item.sect "remote" (partyItems c.auth c.remoteID c.remotePubkey)] ++
  [Item.sect "children" [Item.sect (childName c.name c.epoch) (childItems text c)]]

def secretItems (c : Connection) : List Item :=
  [Item.entry "id-1" c.localID] ++ [Item.entry "id-2" c.remoteID] ++
  [Item.entry "secret" ("0x" ++ encodeToString c.psk.toUTF8.data.toList)]

theorem renderParty_writes {party : String} {auth : AuthMethod} {id pubkey : String} (hparty : Word party)
    (hauth : Word auth.text) (hid : Word id) (hpubkey : auth = .pubkey → Word pubkey) :
    Writes (renderParty party auth id pubkey) [.sect party (partyItems auth id pubkey)] := by
  refine .sect rfl hparty (((Writes.line rfl hauth).append (.line rfl hid)).append (.ite ?_ ?_)) rfl
  · exact fun pubkey => .line rfl (hpubkey pubkey)
  · exact fun _ => .empty

section

variable {c : Connection} (valid : c.Valid)

include valid

theorem renderChild_writes : Writes (renderChild text c) [.sect (childName c.name c.epoch) (childItems text c)] := by
  have name : Word (childName c.name c.epoch) := by
    refine (valid.word_name.append ?_).append (element_repr _).word.2
    simp [special, blank, stops]
  have word_join : ∀ {ps : List NetPrefix}, (ps ≠ [] ∧ ∀ p ∈ ps, p.isValid = true) → Word (joinPrefixes text ps) :=
    fun h => .intercalate (by simpa using h.1) fun s hs => (element_prefixList text h.2 s hs).word
  have esp : Word (",".intercalate c.esp) := .intercalate c.esp_ne_nil fun s hs => (valid.element_esp s hs).word
  have mode : Writes "        mode = tunnel\n" [.entry "mode" "tunnel"] := by
    exact ⟨rfl, by simp [texts, Item.texts, Word, special, blank, stops]⟩
  refine .sect rfl name ?_ rfl
  refine .append (.append (.append (.append (.append (.append (.append ?_ ?_) ?_) mode) ?_) ?_) ?_) ?_
  · exact .line rfl (word_join valid.localTS)
  · exact .line rfl (word_join valid.remoteTS)
  · exact .line rfl esp
  · exact .line rfl (element_repr _).word
  · exact .line rfl (element_repr _).word
  · exact .line rfl valid.word_startAction
  · refine .ite (fun _ => ⟨rfl, ?_⟩) fun _ => .empty
    simp [texts, Item.texts, Word, special, blank, stops]

theorem renderConnection_writes : Writes (renderConnection text c) [.sect c.name (connItems text c)] := by
  have version : Writes "    version = 2\n" [.entry "version" "2"] :=
    ⟨rfl, by simp [texts, Item.texts, Word, special, blank, stops]⟩
  have anyAddr : Writes "    remote_addrs = %any\n" [.entry "remote_addrs" anyID] :=
    ⟨rfl, by simp [texts, Item.texts, anyID, Word, special, blank, stops]⟩
  have ike : Word (",".intercalate c.ike) := .intercalate c.ike_ne_nil fun s hs => (valid.element_ike s hs).word
  have delay : Word ((ceilSeconds c.dpdDelay).repr ++ "s") :=
    (word_int_repr _).append (by simp [special, blank, stops])
  have children : Writes ("    children \x7b\n" ++ renderChild text c ++ "    \x7d\n")
      [.sect "children" [.sect (childName c.name c.epoch) (childItems text c)]] := by
    have word : Word "children" := by simp [Word, special, blank, stops]
    have opening : "    children \x7b\n" = "    " ++ "children" ++ " \x7b\n" := rfl
    rw [opening]
    exact .sect rfl word (renderChild_writes text valid) rfl
  refine .sect rfl valid.word_name ?_ rfl
  refine .append (.append (.append (.append (.append (.append (.append version ?_) ?_) ?_) ?_) ?_) ?_) children
  · exact .ite (fun h => .line rfl (text.addr_element _ h valid.localZone).word) fun _ => .empty
  · exact .ite (fun h => .line rfl (text.addr_element _ h valid.remoteZone).word) fun _ => anyAddr
  · exact .line rfl ike
  · exact .ite (fun _ => .line rfl delay) fun _ => .empty
  · refine renderParty_writes ?_ valid.word_auth (element_of_idRE valid.localID).word fun h => (valid.word_pubkeys h).1
    simp [Word, special, blank, stops]
  · refine renderParty_writes ?_ valid.word_auth valid.word_remoteID fun h => (valid.word_pubkeys h).2
    simp [Word, special, blank, stops]

theorem renderSecret_writes : Writes (renderSecret c) [.sect ("ike-" ++ c.name) (secretItems c)] := by
  have ike : Word "ike-" := by simp [Word, special, blank, stops]
  refine .sect rfl (ike.append valid.word_name.2) (.append (.append ?_ ?_) ?_) rfl
  · exact .line rfl (element_of_idRE valid.localID).word
  · exact .line rfl valid.word_remoteID
  · exact .line rfl (word_encodeToString _)

theorem connMessage_eq (psk : c.auth = .psk) :
    connMessage text c = .ok [.sect c.name (fieldsOf (connItems text c))] := by
  have ike : commas (",".intercalate c.ike) = c.ike := commas_intercalate c.ike_ne_nil valid.element_ike
  have esp : commas (",".intercalate c.esp) = c.esp := commas_intercalate c.esp_ne_nil valid.element_esp
  have localTS : commas (joinPrefixes text c.localTS) = prefixList text c.localTS :=
    commas_intercalate (by simpa using valid.localTS.1) (element_prefixList text valid.localTS.2)
  have remoteTS : commas (joinPrefixes text c.remoteTS) = prefixList text c.remoteTS :=
    commas_intercalate (by simpa using valid.remoteTS.1) (element_prefixList text valid.remoteTS.2)
  have localAddr : c.localAddr.isValid = true → commas (text.addr c.localAddr) = [text.addr c.localAddr] :=
    fun h => (text.addr_element _ h valid.localZone).commas
  have remoteAddr : c.remoteAddr.isValid = true → commas (text.addr c.remoteAddr) = [text.addr c.remoteAddr] :=
    fun h => (text.addr_element _ h valid.remoteZone).commas
  have anyAddr : commas anyID = [anyID] := rfl
  have child : fieldsOf (childItems text c) = childMessage text c := by
    unfold childItems childMessage
    split_ifs <;> simp [fieldsOf, fieldOf, multiValue, newMsg, setField, Field.key, localTS, remoteTS, esp]
  unfold connMessage connItems
  split_ifs <;> simp_all [fieldsOf, fieldOf, multiValue, newMsg, setField, Field.key, partyItems]

end

/-! ## What is accepted -/

variable {l : List Connection}

theorem valid_of_checkSorted {before : Option String} (h : checkSorted before l = .ok ()) : ∀ c ∈ l, c.Valid := by
  induction l generalizing before with
  | nil => simp
  | cons c l ih =>
    unfold checkSorted at h
    split at h
    · cases h
    · next valid =>
      split_ifs at h
      exact List.forall_mem_cons.2 ⟨Connection.valid_of_validate valid, ih h⟩

theorem ne_of_checkSorted {name : String} {c : Connection}
    (h : checkSorted (some name) (c :: l) = .ok ()) : name ≠ c.name := by
  unfold checkSorted at h
  split at h
  · cases h
  · split_ifs at h with duplicate
    exact fun same => duplicate (congrArg some same)

theorem checkSorted_tail {before : Option String} {c : Connection}
    (h : checkSorted before (c :: l) = .ok ()) : checkSorted (some c.name) l = .ok () := by
  unfold checkSorted at h
  split at h
  · cases h
  · split_ifs at h
    exact h

theorem nodup_of_checkSorted {before : Option String} (h : checkSorted before l = .ok ())
    (ordered : l.Pairwise fun a b => a.name ≤ b.name) : (l.map Connection.name).Nodup := by
  induction l generalizing before with
  | nil => exact List.nodup_nil
  | cons c l ih =>
    have rest := checkSorted_tail h
    obtain ⟨first, ordered⟩ := List.pairwise_cons.1 ordered
    refine List.nodup_cons.2 ⟨fun again => ?_, ih rest ordered⟩
    obtain ⟨e, he, same⟩ := List.mem_map.1 again
    cases l with
    | nil => cases he
    | cons d l =>
      have least : d.name ≤ e.name := by
        rcases List.mem_cons.1 he with rfl | later
        · exact le_refl _
        · exact (List.pairwise_cons.1 ordered).1 e later
      exact ne_of_checkSorted rest (le_antisymm (first d List.mem_cons_self) (same ▸ least))

theorem sorted_perm (conns : List Connection) : (sorted conns).Perm conns := List.perm_insertionSort _ conns

theorem sorted_pairwise (conns : List Connection) : (sorted conns).Pairwise fun a b => a.name ≤ b.name := by
  have total : Std.Total fun a b : Connection => a.name ≤ b.name := ⟨fun a b => le_total a.name b.name⟩
  have trans : IsTrans Connection fun a b => a.name ≤ b.name := ⟨fun _ _ _ => le_trans⟩
  exact List.pairwise_insertionSort _ conns

def shared (conns : List Connection) : List Connection := conns.filter fun c => c.auth = .psk

def connSection (c : Connection) : Item := .sect c.name (connItems text c)

def secretSection (c : Connection) : Item := .sect ("ike-" ++ c.name) (secretItems c)

theorem rendered_writes {conns : List Connection} (valid : ∀ c ∈ conns, c.Valid) : Writes (rendered text conns)
      ([.sect "connections" (conns.map (connSection text))] ++
        if shared conns ≠ [] then [.sect "secrets" ((shared conns).map secretSection)] else []) := by
  have header : Writes "# Generated by egressa (internal/ipsec). Do not edit by hand.\n" [] := ⟨rfl, by simp [texts]⟩
  have opensConnections : "connections \x7b\n" = "" ++ "connections" ++ " \x7b\n" := rfl
  have opensSecrets : "secrets \x7b\n" = "" ++ "secrets" ++ " \x7b\n" := rfl
  have connections := Writes.join fun c hc => renderConnection_writes text (valid c hc)
  have secrets := Writes.join fun c (hc : c ∈ shared conns) => renderSecret_writes (valid c (List.mem_of_mem_filter hc))
  unfold rendered
  rw [opensConnections, opensSecrets]
  refine (header.append (.sect rfl ?_ connections rfl)).append
    (.ite (fun _ => .sect rfl ?_ secrets rfl) fun _ => .empty)
  · simp [Word, special, blank, stops]
  · simp [Word, special, blank, stops]

theorem of_render {conns : List Connection} (h : render text conns = .ok s) :
    s = rendered text (sorted conns) ∧ (∀ c ∈ sorted conns, c.Valid) ∧ ((sorted conns).map Connection.name).Nodup := by
  unfold render at h
  cases hsorted : checkSorted none (sorted conns) with
  | error e =>
    rw [hsorted] at h
    cases h
  | ok u =>
    rw [hsorted] at h
    cases hids : checkIfIDs ∅ (sorted conns) with
    | error e =>
      rw [hids] at h
      cases h
    | ok u =>
      rw [hids] at h
      cases h
      exact ⟨rfl, valid_of_checkSorted hsorted, nodup_of_checkSorted hsorted (sorted_pairwise conns)⟩

/-- The text of accepted connections has a section for each, which says of one with a shared key what the message says,
and a secret for each of these; no field's text is more than a word. -/
theorem render_says {conns : List Connection} {s : String} (accepted : render text conns = .ok s) :
    ∃ connections secrets,
      read s = some ([.sect "connections" connections] ++ if shared conns ≠ [] then [.sect "secrets" secrets] else []) ∧
      (conns.map Connection.name).Nodup ∧
      (connections.map Item.name).Perm (conns.map Connection.name) ∧
      (∀ c ∈ conns, .sect c.name (connItems text c) ∈ connections) ∧
      (∀ c ∈ shared conns, connMessage text c = .ok [.sect c.name (fieldsOf (connItems text c))]) ∧
      (secrets.map Item.name).Perm ((shared conns).map fun c => "ike-" ++ c.name) ∧
      (∀ c ∈ shared conns, ∃ digits, .sect ("ike-" ++ c.name)
          [.entry "id-1" c.localID, .entry "id-2" c.remoteID, .entry "secret" ("0x" ++ digits)] ∈ secrets ∧
        decodeString digits.toList = some c.psk.toUTF8.data.toList) ∧
      ∀ w ∈ texts connections ++ texts secrets, Word w := by
  obtain ⟨rfl, valid, nodup⟩ := of_render text accepted
  have perm := sorted_perm conns
  have sharedPerm : (shared (sorted conns)).Perm (shared conns) := perm.filter _
  have writes := rendered_writes text valid
  refine ⟨(sorted conns).map (connSection text), (shared (sorted conns)).map secretSection, ?_,
    (perm.map _).nodup_iff.1 nodup, ?_, ?_, ?_, ?_, ?_, ?_⟩
  · have none_iff : shared (sorted conns) = [] ↔ shared conns = [] :=
      ⟨fun h => (h ▸ sharedPerm).nil_eq.symm, fun h => (h ▸ sharedPerm).eq_nil⟩
    simp only [read_of_writes writes, ne_eq, none_iff]
  · rw [List.map_map]
    exact perm.map _
  · exact fun c hc => List.mem_map_of_mem (perm.mem_iff.2 hc)
  · intro c hc
    obtain ⟨hc, psk⟩ := List.mem_filter.1 hc
    exact connMessage_eq text (valid c (perm.mem_iff.2 hc)) (of_decide_eq_true psk)
  · rw [List.map_map]
    exact sharedPerm.map _
  · intro c hc
    exact ⟨_, List.mem_map_of_mem (sharedPerm.mem_iff.2 hc), decodeString_encodeToString _⟩
  · obtain ⟨hconnections, hsecrets⟩ := List.forall_mem_append.1 (texts_append _ _ ▸ writes.plain)
    rw [texts_sect] at hconnections
    refine List.forall_mem_append.2 ⟨(List.forall_mem_cons.1 hconnections).2, ?_⟩
    by_cases none_ : shared (sorted conns) = []
    · simp [none_, texts]
    · rw [if_pos none_, texts_sect] at hsecrets
      exact (List.forall_mem_cons.1 hsecrets).2

/-! ### A way to write addresses -/

/-- The last `n + 1` groups of an IPv6 address, with all their zeros. -/
def groups (bits : BitVec 128) : ℕ → String
  | 0 => encodeToString [UInt8.ofNat (bits.toNat / 256), UInt8.ofNat bits.toNat]
  | n + 1 => groups (bits >>> 16) n ++ ":" ++ encodeToString [UInt8.ofNat (bits.toNat / 256), UInt8.ofNat bits.toNat]

def dotted (bits : BitVec 32) : String :=
  (bits.toNat / 16777216).repr ++ "." ++ (bits.toNat / 65536 % 256).repr ++ "." ++ (bits.toNat / 256 % 256).repr ++
    "." ++ (bits.toNat % 256).repr

theorem element_groups (bits : BitVec 128) (n : ℕ) : Element (groups bits n) := by
  induction n generalizing bits with
  | zero =>
    have plain := plain_encodeToString [UInt8.ofNat (bits.toNat / 256), UInt8.ofNat bits.toNat]
    refine ⟨⟨fun empty => ?_, fun c hc => (plain c hc).1⟩, fun comma => (plain ',' comma).2 rfl⟩
    have := congrArg String.toList empty
    rw [groups, encodeToString, String.toList_ofList] at this
    cases this
  | succ n ih => exact ((ih _).append (by simp [special, blank, stops])).append (plain_encodeToString _)

theorem element_dotted (bits : BitVec 32) : Element (dotted bits) := by
  have dot : ∀ c ∈ ".".toList, special c = false ∧ c ≠ ',' := by simp [special, blank, stops]
  have next : ∀ {s : String} (n : ℕ), Element s → Element (s ++ "." ++ n.repr) :=
    fun n h => (h.append dot).append (element_repr n).plain
  exact next _ (next _ (next _ (element_repr _)))

def fullAddr : NetAddr → String
  | .zero => "invalid IP"
  | .v4 bits => dotted bits
  | .v6 bits zone => groups bits 7 ++ (if zone = "" then "" else "%" ++ zone)

def fullPrefix : NetPrefix → String
  | .zero => "invalid Prefix"
  | .v4 bits n => dotted bits ++ "/" ++ n.1.repr
  | .v6 bits n => groups bits 7 ++ "/" ++ n.1.repr

theorem element_fullAddr (a : NetAddr) (valid : a.isValid = true) (unzoned : a.zone = "") : Element (fullAddr a) := by
  cases a with
  | zero => cases valid
  | v4 bits => exact element_dotted bits
  | v6 bits zone =>
    simp only [NetAddr.zone] at unzoned
    rw [fullAddr, if_pos unzoned]
    exact (element_groups bits 7).append (by simp)

theorem element_fullPrefix (p : NetPrefix) (valid : p.isValid = true) : Element (fullPrefix p) := by
  have slash : ∀ c ∈ "/".toList, special c = false ∧ c ≠ ',' := by simp [special, blank, stops]
  cases p with
  | zero => cases valid
  | v4 bits n => exact ((element_dotted bits).append slash).append (element_repr _).plain
  | v6 bits n => exact ((element_groups bits 7).append slash).append (element_repr _).plain

def AddrText.full : AddrText := ⟨fullAddr, fullPrefix, element_fullAddr, element_fullPrefix⟩

def Sample.peers : List Connection :=
  [⟨"gw-b", 7, .v4 0x0a000001, .v4 0x0a000002, "gw1", "gw2", .psk, "0x0123456789abcdef", "", "", [.v4 0 0],
      [.v4 0x0a090000 16, .v4 0x0a0a0000 16], 2, ["aes256-sha256-x25519", "aes128-sha256-x25519"], [], 1500000000,
      .start⟩,
    ⟨"clients", 0, .zero, .zero, "gw1", "%any", .psk, "abcdefghijklmnop", "", "", [.v4 0 0], [.v4 0x0a080000 16], 1,
      [], [], 0, .unset⟩]

theorem render_says_peers : ∃ s, render .full Sample.peers = .ok s ∧ ∃ connections secrets,
    read s = some [.sect "connections" connections, .sect "secrets" secrets] ∧
    (connections.map Item.name).Perm ["gw-b", "clients"] := by
  have accepted : render .full Sample.peers = .ok (rendered .full (sorted Sample.peers)) := rfl
  obtain ⟨connections, secrets, hread, -, names, -⟩ := render_says .full accepted
  exact ⟨_, accepted, connections, secrets, hread, names⟩

end Egressa.IPsec
