import Mathlib.Data.List.TakeWhile
import Graft.Connections.Manager

/-!
# The SSH client configuration (`pkg/ssh_config.go`, `InitializeRemote` in `pkg/connector_ssh.go`)

`InitializeRemote` looks the host name of the destination up in the SSH client configuration and
writes what it finds back into the destination.  A later run, on the same connector or from the
destination that was saved, looks up the host name that was found.
-/

namespace Graft.Ssh

open Connections (Url)

/-! ### Hosts and ports (`net.JoinHostPort`, `url.URL`) -/

/-- `net.JoinHostPort`. -/
def joinHostPort (host port : String) : String :=
  if ':' ∈ host.toList then "[" ++ host ++ "]:" ++ port else host ++ ":" ++ port

/-- The host and the port, which follows the last `:` if it has digits only. -/
def splitHostPort (hostPort : List Char) : List Char × List Char :=
  match hostPort.reverse.dropWhile Char.isDigit with
  | ':' :: host => (host.reverse, (hostPort.reverse.takeWhile Char.isDigit).reverse)
  | _ => (hostPort, [])

def stripBrackets : List Char → List Char
  | '[' :: rest => if rest.getLast? = some ']' then rest.dropLast else '[' :: rest
  | host => host

/-- `Hostname`, of `Host`. -/
def hostnameOf (host : String) : String :=
  String.ofList (stripBrackets (splitHostPort host.toList).1)

/-- `Port`, of `Host`. -/
def portOf (host : String) : String := String.ofList (splitHostPort host.toList).2

def Digits (s : String) : Prop := ∀ c ∈ s.toList, c.isDigit = true

instance (s : String) : Decidable (Digits s) := List.decidableBAll _ _

theorem splitHostPort_append {host port : List Char} (h : ∀ c ∈ port, c.isDigit = true) :
    splitHostPort (host ++ ':' :: port) = (host, port) := by
  have hrev : (host ++ ':' :: port).reverse = port.reverse ++ ':' :: host.reverse := by simp
  have hdigits : ∀ c ∈ port.reverse, c.isDigit = true := fun c hc => h c (List.mem_reverse.1 hc)
  have hdrop : (port.reverse ++ ':' :: host.reverse).dropWhile Char.isDigit
      = ':' :: host.reverse := by
    rw [List.dropWhile_append_of_pos hdigits]
    rfl
  have htake : (port.reverse ++ ':' :: host.reverse).takeWhile Char.isDigit = port.reverse := by
    simp_all
  simp [splitHostPort, hrev, hdrop, htake]

theorem portOf_isDigits (host : String) : Digits (portOf host) := by
  intro c hc
  unfold portOf splitHostPort at hc
  grind [List.mem_takeWhile_imp, String.toList_ofList]

theorem portOf_joinHostPort (host : String) {port : String} (h : Digits port) :
    portOf (joinHostPort host port) = port := by
  unfold joinHostPort portOf
  split_ifs
  · rw [show ("[" ++ host ++ "]:" ++ port).toList
      = ('[' :: host.toList ++ [']']) ++ ':' :: port.toList by simp, splitHostPort_append h]
    simp
  · rw [show (host ++ ":" ++ port).toList = host.toList ++ ':' :: port.toList by simp,
      splitHostPort_append h]
    simp

/-- The name under which a host is looked up again: the brackets of a name without a `:` are lost.
-/
def unbracket (host : String) : String :=
  if ':' ∈ host.toList then host else String.ofList (stripBrackets host.toList)

theorem hostnameOf_joinHostPort (host : String) {port : String} (h : Digits port) :
    hostnameOf (joinHostPort host port) = unbracket host := by
  unfold joinHostPort hostnameOf unbracket
  split_ifs
  · rw [show ("[" ++ host ++ "]:" ++ port).toList
      = ('[' :: host.toList ++ [']']) ++ ':' :: port.toList by simp, splitHostPort_append h]
    simp [stripBrackets]
  · rw [show (host ++ ":" ++ port).toList = host.toList ++ ':' :: port.toList by simp,
      splitHostPort_append h]

/-! ### Looking up an alias -/

/-- Replace the occurrences of `old`, of which the next `skip` letters are still to be passed
over. -/
def replaceFrom (old new : List Char) : ℕ → List Char → List Char
  | _, [] => []
  | skip + 1, _ :: text => replaceFrom old new skip text
  | 0, c :: text =>
    if old.isPrefixOf (c :: text) then new ++ replaceFrom old new (old.length - 1) text
    else c :: replaceFrom old new 0 text

/-- `strings.ReplaceAll`. -/
def replaceAll (text old new : String) : String :=
  String.ofList (replaceFrom old.toList new.toList 0 text.toList)

theorem replaceFrom_of_absent_text {old text : List Char} (new : List Char)
    (h : ¬ old <:+: text) : replaceFrom old new 0 text = text := by
  induction text with
  | nil => rfl
  | cons c text ih =>
    have hstart : ¬ old.isPrefixOf (c :: text) = true :=
      fun hold => h (List.isPrefixOf_iff_prefix.1 hold).isInfix
    rw [replaceFrom, if_neg hstart, ih fun hold => h (hold.trans (List.suffix_cons c text).isInfix)]

/-- A text that does not occur is replaced by anything. -/
theorem replaceAll_of_absent {text old : String} (h : ¬ old.toList <:+: text.toList)
    (new : String) : replaceAll text old new = text := by
  rw [replaceAll, replaceFrom_of_absent_text _ h, String.ofList_toList]

/-- The command with `%h`, `%p`, `%r`, `%n` and `%%` replaced. -/
def substituteProxyTokens (cmd originalHost hostname port user : String) : String :=
  let sentinel := "\x00PERCENT\x00"
  let cmd := replaceAll cmd "%%" sentinel
  let cmd := replaceAll cmd "%h" hostname
  let cmd := replaceAll cmd "%p" port
  let cmd := replaceAll cmd "%r" user
  let cmd := replaceAll cmd "%n" originalHost
  replaceAll cmd sentinel "%"

/-- The command when `%r` is looked for. -/
def beforeUser (cmd hostname port : String) : String :=
  replaceAll (replaceAll (replaceAll cmd "%%" "\x00PERCENT\x00") "%h" hostname) "%p" port

/-- The command when `%n` is looked for. -/
def beforeAlias (cmd hostname port user : String) : String :=
  replaceAll (beforeUser cmd hostname port) "%r" user

theorem substituteProxyTokens_eq (cmd originalHost hostname port user : String) :
    substituteProxyTokens cmd originalHost hostname port user =
      replaceAll (replaceAll (beforeAlias cmd hostname port user) "%n" originalHost)
        "\x00PERCENT\x00" "%" := rfl

/-- The configuration of the SSH client, and what else of the machine is read; `none` is an
error. -/
structure Client where
  get : String → String → Option String
  getAll : String → String → Option (List String)
  /-- the values are checked when they are read -/
  port_digits : ∀ hostAlias port, get hostAlias "Port" = some port → Digits port
  /-- `filesystem.Normalize` -/
  normalize : String → Option String
  /-- `user.Current` -/
  currentUser : Option String
  currentUser_ne : currentUser ≠ some ""

/-- `resolvedSSHConfig`. -/
structure Resolved where
  hostname : String
  port : String
  user : String
  identityFiles : List String
  proxyCommand : String
  deriving DecidableEq

namespace Client

variable (client : Client)

def lookup (hostAlias key : String) : Option String :=
  (client.get hostAlias key).filter (· ≠ "")

def hostname (hostAlias : String) : String := (client.lookup hostAlias "Hostname").getD hostAlias

def port (hostAlias fallbackPort : String) : String :=
  if fallbackPort = "" then (client.lookup hostAlias "Port").getD "22" else fallbackPort

/-- Empty if the user is neither given nor configured. -/
def user (hostAlias fallbackUser : String) : String :=
  if fallbackUser = "" then (client.lookup hostAlias "User").getD "" else fallbackUser

/-- The files of `IdentityFile` that can be normalized. -/
def identityFiles (hostAlias : String) : List String :=
  match client.getAll hostAlias "IdentityFile" with
  | none => []
  | some files => files.filterMap client.normalize

def login (hostAlias fallbackUser : String) : Option String :=
  if client.user hostAlias fallbackUser = "" then client.currentUser
  else some (client.user hostAlias fallbackUser)

/-- The command, of which `%n` is the alias. -/
def proxyCommand (hostAlias hostname port user : String) : String :=
  match client.lookup hostAlias "ProxyCommand" with
  | none => ""
  | some cmd => substituteProxyTokens cmd hostAlias hostname port user

end Client

/-- What the configuration says of a host, with the fallbacks of the URL. -/
def resolveSSHConfig (client : Client) (hostAlias fallbackPort fallbackUser : String) : Resolved :=
  let hostname := client.hostname hostAlias
  let port := client.port hostAlias fallbackPort
  let user := client.user hostAlias fallbackUser
  { hostname, port, user
    identityFiles := client.identityFiles hostAlias
    proxyCommand := client.proxyCommand hostAlias hostname port user }

structure SshUrl extends Url where
  /-- `User` is not `nil` -/
  hasUser : Bool
  digits : Digits port

theorem Client.port_isDigits (client : Client) (hostAlias : String) {fallbackPort : String}
    (h : Digits fallbackPort) : Digits (client.port hostAlias fallbackPort) := by
  unfold Client.port
  split_ifs
  · cases hport : client.lookup hostAlias "Port" with
    | none => decide
    | some port =>
      grind [Option.filter_eq_some_iff, port_digits, lookup]
  · exact h

theorem Client.port_ne_empty (client : Client) (hostAlias fallbackPort : String) :
    client.port hostAlias fallbackPort ≠ "" := by
  unfold Client.port
  split_ifs with h
  · cases hport : client.lookup hostAlias "Port" with
    | none => decide
    | some port =>
      grind [Option.filter_eq_some_iff, lookup]
  · exact h

/-- `InitializeRemote`, up to the dialing: what the host name of the destination resolves to, and
the destination that is left. -/
def initializeRemote (client : Client) (destURL : SshUrl) : Option (Resolved × SshUrl) :=
  let resolved := resolveSSHConfig client destURL.hostname destURL.port destURL.user
  let user := if resolved.user = "" then client.currentUser else some resolved.user
  user.map fun user =>
    let host := joinHostPort resolved.hostname resolved.port
    ({ resolved with user },
      { destURL with
        user, hasUser := true, hostname := hostnameOf host, port := portOf host
        digits := portOf_isDigits host })

/-- `ParseDestination`; `parse` is `url.Parse`. -/
def parseDestination (parse : String → Option SshUrl) (destination : String) : Option SshUrl :=
  (parse destination).bind fun destURL =>
    if destURL.scheme ≠ "" ∧ destURL.host ≠ "" then some destURL
    else parse ("ssh://" ++ destination)

/-! ### The second run -/

section Again

variable {client : Client} {u u₁ : SshUrl} {r : Resolved}

theorem initializeRemote_eq (h : initializeRemote client u = some (r, u₁)) :
    r.hostname = client.hostname u.hostname ∧ r.port = client.port u.hostname u.port ∧
      r.identityFiles = client.identityFiles u.hostname ∧
      r.proxyCommand = client.proxyCommand u.hostname (client.hostname u.hostname)
        (client.port u.hostname u.port) (client.user u.hostname u.user) ∧
      r.user ≠ "" ∧ client.login u.hostname u.user = some r.user ∧
      u₁.hostname = unbracket r.hostname ∧ u₁.port = r.port ∧ u₁.user = r.user := by
  have hdigits := client.port_isDigits u.hostname u.digits
  unfold initializeRemote at h
  obtain ⟨user, huser, hpair⟩ := Option.map_eq_some_iff.1 h
  obtain ⟨rfl, rfl⟩ := Prod.mk.inj hpair
  refine ⟨rfl, rfl, rfl, rfl, ?_, huser, hostnameOf_joinHostPort _ hdigits,
    portOf_joinHostPort _ hdigits, rfl⟩
  rintro rfl
  split_ifs at huser with hempty
  · exact client.currentUser_ne huser
  · exact hempty (Option.some.inj huser)

/-- The `Hostname` and the `IdentityFile`s that are configured for the host that is found are those
that are configured for the alias. -/
structure SameHost (client : Client) (u : SshUrl) : Prop where
  hostname : (client.lookup (unbracket (client.hostname u.hostname)) "Hostname").getD
    (unbracket (client.hostname u.hostname)) = client.hostname u.hostname
  identityFiles : client.identityFiles (unbracket (client.hostname u.hostname))
    = client.identityFiles u.hostname

/-- The `ProxyCommand` that is configured for the host that is found is that of the alias, and has
neither the alias in it, nor the user if it is the current one only. -/
structure SameProxy (client : Client) (u : SshUrl) : Prop where
  command : client.lookup (unbracket (client.hostname u.hostname)) "ProxyCommand" =
    client.lookup u.hostname "ProxyCommand"
  user : ∀ cmd ∈ client.lookup u.hostname "ProxyCommand", client.user u.hostname u.user ≠ "" ∨
    ¬ "%r".toList <:+: (beforeUser cmd (client.hostname u.hostname)
      (client.port u.hostname u.port)).toList
  name : ∀ cmd ∈ client.lookup u.hostname "ProxyCommand",
    unbracket (client.hostname u.hostname) = u.hostname ∨
      ¬ "%n".toList <:+: (beforeAlias cmd (client.hostname u.hostname)
        (client.port u.hostname u.port) (client.user u.hostname u.user)).toList

/-- The command is the same for the host that is found, with the user that logs in. -/
theorem SameProxy.proxyCommand (h : SameProxy client u) {user : String}
    (huser : client.login u.hostname u.user = some user) :
    client.proxyCommand (unbracket (client.hostname u.hostname)) (client.hostname u.hostname)
        (client.port u.hostname u.port) user
      = client.proxyCommand u.hostname (client.hostname u.hostname) (client.port u.hostname u.port)
        (client.user u.hostname u.user) := by
  unfold Client.proxyCommand
  rw [h.command]
  cases hcmd : client.lookup u.hostname "ProxyCommand" with
  | none => rfl
  | some cmd =>
    have hbefore : beforeAlias cmd (client.hostname u.hostname) (client.port u.hostname u.port) user =
        beforeAlias cmd (client.hostname u.hostname) (client.port u.hostname u.port)
          (client.user u.hostname u.user) := by
      rcases h.user cmd hcmd with hgiven | hnone
      · rw [Client.login, if_neg hgiven] at huser
        rw [Option.some.inj huser]
      · rw [beforeAlias, beforeAlias, replaceAll_of_absent hnone, replaceAll_of_absent hnone]
    dsimp only
    rw [substituteProxyTokens_eq, substituteProxyTokens_eq, hbefore]
    rcases h.name cmd hcmd with hsame | hnone
    · rw [hsame]
    · rw [replaceAll_of_absent hnone, replaceAll_of_absent hnone]

theorem initializeRemote_again (h : initializeRemote client u = some (r, u₁)) :
    (initializeRemote client u₁).map Prod.fst = some
      { hostname := client.hostname u₁.hostname, port := r.port, user := r.user
        identityFiles := client.identityFiles u₁.hostname
        proxyCommand := client.proxyCommand u₁.hostname (client.hostname u₁.hostname) r.port
          r.user } := by
  obtain ⟨-, hport, -, -, huser, -, -, hport₁, huser₁⟩ := initializeRemote_eq h
  have hne : r.port ≠ "" := hport ▸ client.port_ne_empty _ _
  have hport₂ : client.port u₁.hostname u₁.port = r.port := by
    rw [Client.port, hport₁, if_neg hne]
  have huser₂ : client.user u₁.hostname u₁.user = r.user := by
    rw [Client.user, huser₁, if_neg huser]
  simp [initializeRemote, resolveSSHConfig, hport₂, huser₂, huser]

end Again

/-- A configuration with one section, for the alias `dev`; what is not configured is the default of
the library. -/
def devClient : Client where
  get hostAlias key :=
    if hostAlias = "dev" ∧ key = "Hostname" then some "10.0.0.5"
    else if key = "Port" then some "22"
    else if hostAlias = "dev" ∧ key = "ProxyCommand" then some "jump %h %p"
    else if hostAlias = "10.0.0.6" ∧ key = "ProxyCommand" then some "jump %h %p"
    else if hostAlias = "db" ∧ key = "ProxyCommand" then some "jump %h %p"
    else if hostAlias = "db" ∧ key = "Hostname" then some "10.0.0.6"
    else some ""
  getAll hostAlias key :=
    if key = "IdentityFile" then
      some [if hostAlias = "dev" then "/keys/dev" else "~/.ssh/identity"]
    else some []
  port_digits hostAlias port h := by
    have hport : port = "22" := by simpa [eq_comm] using h
    rw [hport]
    decide
  normalize file :=
    some (if file = "~/.ssh/identity" then "/home/me/.ssh/identity" else file)
  currentUser := some "me"
  currentUser_ne := by decide

def plainUrl (hostname : String) : SshUrl := ⟨⟨"ssh", "", hostname, "", ""⟩, false, nofun⟩

/-- What is left of a destination without a port and a user. -/
def resolvedUrl (hostname : String) : SshUrl :=
  ⟨⟨"ssh", "me", hostname, "22", ""⟩, true, show Digits "22" by decide⟩

end Graft.Ssh
