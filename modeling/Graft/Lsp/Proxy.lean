import Graft.Library.Machine
import Graft.Lsp.Rewrite

/-!
# The language server proxy (`lspBinder.Bind` in `pkg/local_client_commands_lsp.go`)

The proxy passes the messages of an editor on to a language server and those of the server on to the
editor.  The editor's requests are entered under their ids in a table, where the answers of the
server find them; an answer of the editor is awaited by a goroutine of its own.

Every message is decoded and encoded again.  Decoding fails where there is nothing to decode, so
that a message without params is not passed on (`shutdown_not_forwarded`), and an answer with
neither error nor result is dropped after its entry was deleted.  Numbers are decoded to `float64`,
which not all of them survive.
-/

namespace Graft.Lsp.Proxy

open Function (update)

/-- A request, or a notification, which has no id. -/
structure Message where
  id : Option ℕ
  method : String
  params : Option Json

structure Response where
  id : ℕ
  error : Option String
  result : Option Json

abbrev Answer := Except String Json

def field (k : String) : Json → Option Json
  | .obj fields => fields.lookup k
  | _ => none

/-- The table of requests, the channels with the requests that wait at them, and the awaited calls of
the editor; then what was sent and what was read. -/
structure State where
  inflightClientRequests : ℕ → Option ℕ
  channel : ℕ → Option Answer
  request : ℕ → Message
  channels : ℕ
  /-- the id of the server's request -/
  call : ℕ → Option ℕ
  calls : ℕ
  toServer : List Message
  toClient : List Message
  /-- answers to the editor, with the number of the channel; what is sent is `finish` of them -/
  responded : List (ℕ × Answer)
  /-- answers of the editor that were returned to the server -/
  returned : List (ℕ × Answer)
  fromClient : List Message
  fromServer : List Message
  /-- answers of the server to requests in the table, with the number of the channel -/
  serverResponses : List (ℕ × Response)
  clientResponses : List (ℕ × Answer)

def State.init : State where
  inflightClientRequests _ := none
  channel _ := none
  request _ := ⟨none, "", none⟩
  channels := 0
  call _ := none
  calls := 0
  toServer := []
  toClient := []
  responded := []
  returned := []
  fromClient := []
  fromServer := []
  serverResponses := []
  clientResponses := []

/-- What the client and the server send. -/
inductive Event
  | client (m : Message)
  | server (m : Message)
  | serverResponse (r : Response)
  | clientResponse (n : ℕ) (a : Answer)
  /-- the goroutine that waits at the channel -/
  | respond (k : ℕ)

mutual

/-- What is decoded, with what is written for a number that was read as a `float64`; a number that is
too large for one is an error. -/
def decode (float : ℚ → Option ℚ) : Json → Option Json
  | .number q => (float q).map .number
  | .arr l => (decodeList float l).map .arr
  | .obj fields => (decodeFields float fields).map .obj
  | v => some v

def decodeList (float : ℚ → Option ℚ) : List Json → Option (List Json)
  | [] => some []
  | v :: l => (decode float v).bind fun v => (decodeList float l).map (v :: ·)

def decodeFields (float : ℚ → Option ℚ) : List (String × Json) → Option (List (String × Json))
  | [] => some []
  | (k, v) :: fields =>
    (decode float v).bind fun v => (decodeFields float fields).map ((k, v) :: ·)

end

mutual

/-- The numbers in a value. -/
def numbers : Json → List ℚ
  | .number q => [q]
  | .arr l => numbersList l
  | .obj fields => numbersFields fields
  | _ => []

def numbersList : List Json → List ℚ
  | [] => []
  | v :: l => numbers v ++ numbersList l

def numbersFields : List (String × Json) → List ℚ
  | [] => []
  | (_, v) :: fields => numbers v ++ numbersFields fields

end

/-- All numbers in the value survive. -/
def Kept (float : ℚ → Option ℚ) (v : Json) : Prop := ∀ q ∈ numbers v, float q = some q

section Steps

-- `inject` is `injectTextDocumentContentCapability`
variable (args : Args) (float : ℚ → Option ℚ) (inject : Json → Json)

/-- The scheme of the URI that a value has under the key `uri`. -/
def paramsURIScheme (params : Json) : String :=
  match field "uri" params with
  | some (.str uri) => ((parseURI uri).map (·.scheme)).getD ""
  | _ => ""

def editMethods : List String :=
  ["textDocument/didChange", "textDocument/didSave", "textDocument/willSave",
    "textDocument/willSaveWaitUntil"]

/-- Whether an edit is of a document that the proxy serves itself. -/
def isGraftDocumentEdit (method : String) (params : Json) : Bool :=
  method ∈ editMethods && ((field "textDocument" params).map paramsURIScheme) == some "graft"

/-- The message is for the proxy itself, in which numbers play no part. -/
def Message.addressed (m : Message) : Bool :=
  m.params.any fun params => isGraftDocumentEdit m.method params ||
    (m.method == "workspace/textDocumentContent" && paramsURIScheme params == "graft")

/-- The message with the URIs of the other side. -/
def Message.rewrite (forRemote : Bool) (m : Message) : Message :=
  { m with params := m.params.map (Lsp.rewrite args forRemote) }

/-- The message as it is decoded. -/
def Message.decoded (m : Message) : Option Message :=
  (m.params.bind (decode float)).map fun params => { m with params := some params }

/-- What is sent to the channel, if anything. -/
def Response.answer (r : Response) : Option Answer :=
  match r.error with
  | some err => some (.error err)
  | none => (r.result.bind (decode float)).map fun result => .ok (Lsp.rewrite args false result)

/-- The server's answer, with the URIs of the editor. -/
def Response.carried (r : Response) : Option Answer :=
  match r.error with
  | some err => some (.error err)
  | none => r.result.map fun result => .ok (Lsp.rewrite args false result)

/-- What is sent to the editor for an answer that came through the channel. -/
def finish (m : Message) (a : Answer) : Answer :=
  if m.method = "initialize" ∧ args.connectionName ≠ [] ∧ args.clientSupportsContent then
    a.map inject
  else a

/-- The handler for the editor's messages. -/
def client (s : State) (m : Message) : State :=
  let s := { s with fromClient := s.fromClient ++ [m] }
  match m.decoded float with
  | none => s
  | some m' =>
    if m.addressed then s
    else
      let s := { s with toServer := s.toServer ++ [m'.rewrite args true] }
      match m.id with
      | none => s
      | some id => { s with
        inflightClientRequests := update s.inflightClientRequests id (some s.channels)
        channel := update s.channel s.channels none
        request := update s.request s.channels m
        channels := s.channels + 1 }

/-- The reader of the server's messages; a message that is not decoded is answered with the error. -/
def server (s : State) (m : Message) : State :=
  let s := { s with fromServer := s.fromServer ++ [m] }
  match m.decoded float with
  | none => s
  | some m' =>
    let s := { s with toClient := s.toClient ++ [m'.rewrite args false] }
    match m.id with
    | none => s
    | some id => { s with call := update s.call s.calls (some id), calls := s.calls + 1 }

def serverResponse (s : State) (r : Response) : State :=
  match s.inflightClientRequests r.id with
  | none => s
  | some k => { s with
    inflightClientRequests := update s.inflightClientRequests r.id none
    serverResponses := s.serverResponses ++ [(k, r)]
    channel := update s.channel k (r.answer args float) }

/-- What is returned to the server for the editor's answer: one that cannot be decoded is an error. -/
def awaited (a : Answer) : Answer :=
  a.bind fun result =>
    match decode float result with
    | none => .error "cannot unmarshal number"
    | some result => .ok (Lsp.rewrite args true result)

/-- What the proxy does with a message. -/
def fire (s : State) : Event → State
  | .client m => client args float s m
  | .server m => server args float s m
  | .serverResponse r => serverResponse args float s r
  | .clientResponse n a =>
    match s.call n with
    | none => s
    | some id => { s with
      call := update s.call n none
      clientResponses := s.clientResponses ++ [(id, a)]
      returned := s.returned ++ [(id, awaited args float a)] }
  | .respond k =>
    match s.channel k with
    | none => s
    | some a => { s with
      channel := update s.channel k none
      responded := s.responded ++ [(k, a)] }

/-- What the editor was sent. -/
def State.sent (s : State) : List (ℕ × Answer) :=
  s.responded.map fun p => (p.1, finish args inject (s.request p.1) p.2)

/-- The proxy between a client and a server. -/
def proxy : Machine State Event where
  enabled _ _ := True
  fire := fire args float

/-- The editor uses no id again while it waits for an answer under it. -/
def Fresh (s : State) : Event → Prop
  | .client m => ∀ id ∈ m.id, s.inflightClientRequests id = none
  | _ => True

/-! ### Forwarding -/

/-- Every message that is not for the proxy was passed on once; every request of the editor waits for
its answer or was answered by the server, and an answer of the server is at the channel or was sent
to the editor, once; every answer of the editor was returned. -/
structure Faithful (s : State) : Prop where
  toServer : s.toServer = (s.fromClient.filter (! ·.addressed)).map (·.rewrite args true)
  toClient : s.toClient = s.fromServer.map (·.rewrite args false)
  waiting : ∀ k < s.channels, ∃ id, (s.request k).id = some id ∧
    (s.inflightClientRequests id = some k ∨ ∃ r, (k, r) ∈ s.serverResponses ∧ r.id = id)
  responded : ∀ k r, (k, r) ∈ s.serverResponses → ∃ a, r.carried args = some a ∧
    (s.channel k = some a ∨ (k, a) ∈ s.responded)
  once : (s.responded.map Prod.fst).Nodup
  returned : s.returned
    = s.clientResponses.map fun p => (p.1, p.2.map (Lsp.rewrite args true))

/-- Every message that is not for the proxy has params and every answer an error or a result, and the
numbers in all of them survive. -/
structure Decodable (s : State) : Prop where
  client : ∀ m ∈ s.fromClient, m.addressed = false → ∃ v, m.params = some v ∧ Kept float v
  server : ∀ m ∈ s.fromServer, ∃ v, m.params = some v ∧ Kept float v
  response : ∀ k r, (k, r) ∈ s.serverResponses → r.error = none →
    ∃ v, r.result = some v ∧ Kept float v
  returned : ∀ id v, (id, .ok v) ∈ s.clientResponses → Kept float v

/-- What was passed on is what could be decoded. -/
structure Logs (s : State) : Prop where
  toServer : s.toServer = (s.fromClient.filter (! ·.addressed)).filterMap
    fun m => (m.decoded float).map (·.rewrite args true)
  toClient : s.toClient = s.fromServer.filterMap fun m => (m.decoded float).map (·.rewrite args false)
  returned : s.returned = s.clientResponses.map fun p => (p.1, awaited args float p.2)

/-- Requests in the table, answers at the channels and answers that were sent. -/
structure Table (s : State) : Prop where
  waiting : ∀ k < s.channels, ∃ id, (s.request k).id = some id ∧
    (s.inflightClientRequests id = some k ∨ ∃ r, (k, r) ∈ s.serverResponses ∧ r.id = id)
  entry : ∀ id k, s.inflightClientRequests id = some k → k < s.channels ∧
    (s.request k).id = some id ∧ ∀ r, (k, r) ∉ s.serverResponses
  old : ∀ k r, (k, r) ∈ s.serverResponses → k < s.channels
  responded : ∀ k r, (k, r) ∈ s.serverResponses → ∀ a, r.answer args float = some a →
    s.channel k = some a ∨ (k, a) ∈ s.responded
  channel : ∀ k a, s.channel k = some a → k ∉ s.responded.map Prod.fst ∧
    ∃ r, (k, r) ∈ s.serverResponses ∧ r.answer args float = some a
  done : ∀ k a, (k, a) ∈ s.responded → ∃ r, (k, r) ∈ s.serverResponses ∧
    r.answer args float = some a
  unique : ∀ k r r', (k, r) ∈ s.serverResponses → (k, r') ∈ s.serverResponses → r = r'
  once : (s.responded.map Prod.fst).Nodup

variable {args float} {s : State}

theorem Logs.fire (h : Logs args float s) (e : Event) : Logs args float (fire args float s e) := by
  obtain ⟨hserver, hclient, hreturned⟩ := h
  cases e with
  | client m =>
    cases hp : m.decoded float <;> cases ha : m.addressed <;> cases hid : m.id <;>
      constructor <;> simp [Proxy.fire, client, List.filter_append, *]
  | server m =>
    cases hp : m.decoded float <;> cases hid : m.id <;>
      constructor <;> simp [Proxy.fire, server, *]
  | serverResponse r =>
    dsimp only [Proxy.fire, serverResponse]
    split <;> exact ⟨hserver, hclient, hreturned⟩
  | clientResponse n a =>
    dsimp only [Proxy.fire]
    split
    · exact ⟨hserver, hclient, hreturned⟩
    · exact ⟨hserver, hclient, by simp [hreturned]⟩
  | respond k =>
    dsimp only [Proxy.fire]
    split <;> exact ⟨hserver, hclient, hreturned⟩

theorem Table.enter (h : Table args float s) {m : Message} {id : ℕ}
    (hid : m.id = some id) (hfresh : s.inflightClientRequests id = none) (log log' : List Message) :
    Table args float { s with
      fromClient := log
      toServer := log'
      inflightClientRequests := update s.inflightClientRequests id (some s.channels)
      channel := update s.channel s.channels none
      request := update s.request s.channels m
      channels := s.channels + 1 } := by
  obtain ⟨hwaiting, hentry, hold, hresponded, hchannel, hdone, hunique, honce⟩ := h
  refine ⟨fun k hk => ?_, ?_, ?_, ?_, ?_, hdone, hunique, honce⟩
  · replace hk : k < s.channels + 1 := hk
    by_cases hnew : k = s.channels
    · exact ⟨id, by simp [hnew, hid], Or.inl (by simp [hnew])⟩
    · obtain ⟨id', hid', hin⟩ := hwaiting k (by omega)
      refine ⟨id', by simpa [hnew] using hid', hin.imp_left fun hin => ?_⟩
      have hne : id' ≠ id := by
        rintro rfl
        simp [hfresh] at hin
      simpa [hne] using hin
  all_goals grind [Function.update_apply]

theorem Table.serverResponse (h : Table args float s) (r : Response) :
    Table args float (serverResponse args float s r) := by
  unfold Proxy.serverResponse
  cases hk : s.inflightClientRequests r.id with
  | none => exact h
  | some k =>
    obtain ⟨hwaiting, hentry, hold, hresponded, hchannel, hdone, hunique, honce⟩ := h
    obtain ⟨hlt, hid, hnone⟩ := hentry _ _ hk
    refine ⟨fun k' hk' => ?_, ?_, ?_, ?_, ?_, ?_, ?_, honce⟩
    · obtain ⟨id', hid', hin⟩ := hwaiting k' hk'
      refine ⟨id', hid', ?_⟩
      by_cases hsame : id' = r.id
      · grind
      · grind [Function.update_apply]
    all_goals grind [Function.update_apply]

theorem Table.respond (h : Table args float s) {k : ℕ} {a : Answer} (hk : s.channel k = some a) :
    Table args float { s with
      channel := update s.channel k none
      responded := s.responded ++ [(k, a)] } := by
  obtain ⟨hwaiting, hentry, hold, hresponded, hchannel, hdone, hunique, honce⟩ := h
  obtain ⟨hnew, hserver⟩ := hchannel k a hk
  refine ⟨hwaiting, hentry, hold, ?_, ?_, ?_, hunique, ?_⟩
  · grind [Function.update_apply]
  · grind [Function.update_apply]
  · grind
  · rw [List.map_append, List.nodup_append]
    refine ⟨honce, by simp, ?_⟩
    rintro _ ha _ hb rfl
    rw [List.map_singleton, List.mem_singleton] at hb
    subst hb
    exact hnew ha

theorem Table.fire (h : Table args float s) (e : Event) (hfresh : Fresh s e) :
    Table args float (fire args float s e) := by
  cases e with
  | client m =>
    dsimp only [Proxy.fire, client]
    cases m.decoded float with
    | none => exact { h with }
    | some m' =>
      dsimp only
      split_ifs
      · exact { h with }
      · cases hid : m.id with
        | none => exact { h with }
        | some id => exact h.enter hid (hfresh id hid) _ _
  | server m =>
    dsimp only [Proxy.fire, server]
    cases m.decoded float with
    | none => exact { h with }
    | some m' => cases m.id <;> exact { h with }
  | serverResponse r => exact h.serverResponse r
  | clientResponse n a =>
    dsimp only [Proxy.fire]
    cases s.call n <;> exact { h with }
  | respond k =>
    dsimp only [Proxy.fire]
    cases hk : s.channel k with
    | none => exact h
    | some a => exact h.respond hk

theorem logs_and_table (hrun : (proxy args float).Run Fresh .init s) :
    Logs args float s ∧ Table args float s := by
  refine hrun.invariant (I := fun s => Logs args float s ∧ Table args float s) ⟨?_, ?_⟩
    fun t e h _ hfresh => ⟨h.1.fire e, h.2.fire e hfresh⟩ <;> constructor <;> simp [State.init]

/-! ### Values that survive -/

section Kept

variable {v v' : Json}

mutual

theorem decode_of_kept (v : Json) (h : Kept float v) : decode float v = some v := by
  cases v with
  | number q => simp [decode, h q (by simp [numbers])]
  | arr l => simp [decode, decodeList_of_kept l (by simpa [Kept, numbers] using h)]
  | obj fields => simp [decode, decodeFields_of_kept fields (by simpa [Kept, numbers] using h)]
  | _ => rfl

theorem decodeList_of_kept (l : List Json) (h : ∀ q ∈ numbersList l, float q = some q) :
    decodeList float l = some l := by
  cases l with
  | nil => rfl
  | cons v l =>
    simp only [numbersList, List.mem_append] at h
    simp [decodeList, decode_of_kept v fun q hq => h q (.inl hq),
      decodeList_of_kept l fun q hq => h q (.inr hq)]

theorem decodeFields_of_kept (fields : List (String × Json))
    (h : ∀ q ∈ numbersFields fields, float q = some q) : decodeFields float fields = some fields := by
  cases fields with
  | nil => rfl
  | cons kv fields =>
    obtain ⟨k, v⟩ := kv
    simp only [numbersFields, List.mem_append] at h
    simp [decodeFields, decode_of_kept v fun q hq => h q (.inl hq),
      decodeFields_of_kept fields fun q hq => h q (.inr hq)]

end

/-- What is no string is decoded to no string. -/
theorem eq_of_mapStr {f : String → String} (h : decode float v = some v')
    (heq : v'.mapStr f = v.mapStr f) : v' = v := by
  cases v with
  | str s =>
    cases h
    rfl
  | number q =>
    obtain ⟨q', -, rfl⟩ := Option.map_eq_some_iff.1 h
    exact heq
  | arr l =>
    obtain ⟨l', -, rfl⟩ := Option.map_eq_some_iff.1 h
    exact heq
  | obj fields =>
    obtain ⟨fields', -, rfl⟩ := Option.map_eq_some_iff.1 h
    exact heq
  | _ =>
    cases h
    rfl

mutual

/-- **A value that comes out right has survived.** -/
theorem kept_of_rewrite (forRemote : Bool) (v v' : Json) (h : decode float v = some v')
    (heq : Lsp.rewrite args forRemote v' = Lsp.rewrite args forRemote v) : Kept float v := by
  cases v with
  | number q =>
    obtain ⟨q', hq', rfl⟩ := Option.map_eq_some_iff.1 h
    simp only [Lsp.rewrite, Json.number.injEq] at heq
    intro q₀ hq₀
    simp only [numbers, List.mem_singleton] at hq₀
    rw [hq₀, hq', heq]
  | arr l =>
    obtain ⟨l', hl', rfl⟩ := Option.map_eq_some_iff.1 h
    simp only [Lsp.rewrite, Json.arr.injEq] at heq
    simpa [Kept, numbers] using keptList_of_rewrite forRemote l l' hl' heq
  | obj fields =>
    obtain ⟨fields', hfields', rfl⟩ := Option.map_eq_some_iff.1 h
    simp only [Lsp.rewrite, Json.obj.injEq] at heq
    simpa [Kept, numbers] using keptFields_of_rewrite forRemote fields fields' hfields' heq
  | _ => simp [Kept, numbers]

theorem keptList_of_rewrite (forRemote : Bool) (l l' : List Json) (h : decodeList float l = some l')
    (heq : Lsp.rewriteList args forRemote l' = Lsp.rewriteList args forRemote l) :
    ∀ q ∈ numbersList l, float q = some q := by
  cases l with
  | nil => simp [numbersList]
  | cons v l =>
    simp only [decodeList, Option.bind_eq_some_iff, Option.map_eq_some_iff] at h
    obtain ⟨v', hv', l', hl', rfl⟩ := h
    simp only [Lsp.rewriteList, List.cons.injEq] at heq
    simp only [numbersList, List.mem_append]
    exact fun q hq => hq.elim (kept_of_rewrite forRemote v v' hv' heq.1 q)
      (keptList_of_rewrite forRemote l l' hl' heq.2 q)

theorem keptFields_of_rewrite (forRemote : Bool) (fields fields' : List (String × Json))
    (h : decodeFields float fields = some fields')
    (heq : Lsp.rewriteFields args forRemote fields' = Lsp.rewriteFields args forRemote fields) :
    ∀ q ∈ numbersFields fields, float q = some q := by
  cases fields with
  | nil => simp [numbersFields]
  | cons kv fields =>
    obtain ⟨k, v⟩ := kv
    simp only [decodeFields, Option.bind_eq_some_iff, Option.map_eq_some_iff] at h
    obtain ⟨v', hv', fields', hfields', rfl⟩ := h
    simp only [Lsp.rewriteFields, List.cons.injEq, Prod.mk.injEq, true_and] at heq
    simp only [numbersFields, List.mem_append]
    refine fun q hq => hq.elim (kept_of_rewrite forRemote v v' hv' ?_ q)
      (keptFields_of_rewrite forRemote fields fields' hfields' heq.2 q)
    -- under the keys of strings, what is no string is not rewritten
    have hvalue := heq.1
    split_ifs at hvalue
    · rw [eq_of_mapStr hv' hvalue]
    · rw [eq_of_mapStr hv' hvalue]
    · exact hvalue

end

theorem decode_rewrite_iff {forRemote : Bool} : (∃ v', decode float v = some v' ∧
    Lsp.rewrite args forRemote v' = Lsp.rewrite args forRemote v) ↔ Kept float v :=
  ⟨fun ⟨v', h, heq⟩ => kept_of_rewrite forRemote v v' h heq, fun h => ⟨v, decode_of_kept v h, rfl⟩⟩

end Kept

theorem decoded_rewrite_iff {forRemote : Bool} {m : Message} :
    (m.decoded float).map (·.rewrite args forRemote) = some (m.rewrite args forRemote) ↔
      ∃ v, m.params = some v ∧ Kept float v := by
  cases hp : m.params with
  | none => simp [Message.decoded, hp]
  | some v =>
    simp only [Message.decoded, hp, Option.bind_some, Option.map_map, Option.map_eq_some_iff,
      Function.comp_apply, Message.rewrite, Option.map_some, Message.mk.injEq, true_and,
      Option.some.injEq, exists_eq_left']
    exact decode_rewrite_iff

theorem awaited_iff {a : Answer} : awaited args float a = a.map (Lsp.rewrite args true) ↔
    ∀ v, a = .ok v → Kept float v := by
  cases a with
  | error e => simp [awaited, Except.bind, Except.map]
  | ok v =>
    simp only [Except.ok.injEq, forall_eq']
    have hkept : (∃ v', decode float v = some v' ∧
        Lsp.rewrite args true v' = Lsp.rewrite args true v) ↔ Kept float v := decode_rewrite_iff
    rw [← hkept]
    simp only [awaited, Except.bind, Except.map]
    cases decode float v with
    | none => simp
    | some v' => simp

/-- Nothing is left out of a list, and nothing changed. -/
theorem filterMap_eq_map_iff {α β : Type*} {f : α → Option β} {g : α → β} {l : List α} :
    l.filterMap f = l.map g ↔ ∀ x ∈ l, f x = some (g x) := by
  induction l with
  | nil => simp
  | cons x l ih =>
    cases hf : f x with
    | none =>
      have hlength : (l.filterMap f).length < (g x :: l.map g).length := by
        have := List.length_filterMap_le f l
        simp
        omega
      simp only [List.filterMap_cons, hf, List.map_cons, List.forall_mem_cons, reduceCtorEq,
        false_and, iff_false]
      exact fun hx => hlength.ne (congrArg List.length hx)
    | some y => simp [hf, ih]

end Steps

/-- No prefixes and no connection. -/
def bareArgs : Args where
  remappings := []
  connectionName := []
  clientSupportsContent := false
  localPathExists _ := true

/-- Whole numbers up to 2^53 survive, the next one does not. -/
def float53 (q : ℚ) : Option ℚ := some (if q = 2 ^ 53 + 1 then 2 ^ 53 else q)

/-- A request with a number. -/
def hover : Message := ⟨some 1, "hover", some (.number 7)⟩

end Graft.Lsp.Proxy
