import AgentSight.Text
import AgentSight.View.Row

/-!
# Metadata derivation

`bridge/metadata.rs`: every function here turns a content-bearing string (a path, a URL, an
argument vector) into a coarse class or a digest, so that no raw value reaches a bridge row
outside its `content`.
-/

namespace AgentSight.Bridge.Metadata

open Str

/-- Version tag mixed into command fingerprints. -/
def redactionVersion : String := "as-redact/v1"

def classRepo : String := "repo"
def classHome : String := "home"
def classTmp : String := "tmp"
def classDependencyCache : String := "dependency_cache"
def classSystem : String := "system"
def classOther : String := "other"

def dependencyMarkers : List String :=
  ["/node_modules/", "/.cargo/", "/.rustup/", "/.npm/", "/.pnpm/", "/site-packages/", "/.venv/",
    "/go/pkg/mod/", "/.m2/", "/.gradle/", "/.cache/", "/vendor/"]

def systemPrefixes : List String :=
  ["/usr/", "/bin/", "/sbin/", "/lib/", "/lib64/", "/etc/", "/proc/", "/sys/", "/dev/", "/opt/",
    "/System/", "/Library/"]

def homePrefixes : List String := ["/home/", "/Users/", "/root"]

def tmpPrefixes : List String :=
  ["/tmp/", "/var/tmp/", "/private/tmp/", "/private/var/folders/", "/var/folders/"]

def packageRegistryHosts : List String :=
  ["registry.npmjs.org", "pypi.org", "files.pythonhosted.org", "crates.io", "static.crates.io",
    "index.crates.io", "rubygems.org", "proxy.golang.org", "repo.maven.apache.org"]

def vcsHosts : List String :=
  ["github.com", "codeload.github.com", "raw.githubusercontent.com", "gitlab.com",
    "bitbucket.org", "git.sr.ht"]

def multiLabelSuffixes : List String :=
  ["co.uk", "org.uk", "ac.uk", "com.au", "co.jp", "com.br", "com.cn", "co.in"]

/-! ### Paths -/

def homeRelative (normalized : String) : Option String :=
  homePrefixes.findSome? fun pre => do
    let rest ← stripPrefix normalized pre
    -- `/home/<user>/…` and `/Users/<user>/…` carry a user component; `/root/…` does not.
    if pre == "/root" then some ((stripPrefix rest "/").getD rest)
    else (splitOnce rest "/").map (·.2)

def isWorkingTree (homeRelative : String) : Bool :=
  ((split homeRelative (· == '/')).find? (! ·.isEmpty)).any (! startsWith · ".")

/-- Bucket a filesystem path without disclosing it. -/
def pathClass (path : String) : Option String :=
  let path := trim path
  if path.isEmpty then none
  else
    let normalized := if endsWith path "/" then path else path ++ "/"
    if tmpPrefixes.any (startsWith normalized) then some classTmp
    else if dependencyMarkers.any (contains normalized) then some classDependencyCache
    else if systemPrefixes.any (startsWith normalized) then some classSystem
    else
      match homeRelative normalized with
      | some rest => some (if isWorkingTree rest then classRepo else classHome)
      | none => some classOther

def classes : List String :=
  [classRepo, classHome, classTmp, classDependencyCache, classSystem, classOther]

/-- A path class is one of six words. -/
theorem pathClass_mem {path word : String} (h : pathClass path = some word) : word ∈ classes := by
  simp only [pathClass] at h
  split at h
  · cases h
  · generalize (if endsWith (trim path) "/" then trim path else trim path ++ "/") = normalized at h
    split_ifs at h
    · simp [classes, ← Option.some.inj h]
    · simp [classes, ← Option.some.inj h]
    · simp [classes, ← Option.some.inj h]
    · split at h
      · split_ifs at h <;> simp [classes, ← Option.some.inj h]
      · simp [classes, ← Option.some.inj h]

/-- Same buckets as `pathClass`, named for working directories. -/
def cwdClass (path : String) : Option String := pathClass path

/-- The last of the parts of `s` between occurrences of `c`: `rsplit(c).next()`. -/
def lastPart (s : String) (c : Char) : String :=
  ((split s (· == c)).getLast?).getD s

def isAsciiAlphanumeric (c : Char) : Bool := c.isAlphanum

/-- Lowercase file extension of a path, when it looks like one. -/
def extension (path : String) : Option String := do
  let basename := lastPart path '/'
  let (_, ext) ← rsplitOnce basename "."
  let ext := toAsciiLowercase (trim ext)
  if !ext.isEmpty && ext.utf8ByteSize ≤ 16 && ext.toList.all isAsciiAlphanumeric then some ext
  else none

/-! ### Commands -/

def isEnvAssignment (token : String) : Bool :=
  match splitOnce token "=" with
  | none => false
  | some (name, _) =>
    !name.isEmpty &&
      name.toList.zipIdx.all fun (c, i) => c == '_' || c.isAlpha || (0 < i && c.isDigit)

/-- Basename of an executable path or command string, past any leading environment
assignments, and never a string that contains `=`. -/
def executableBasename (command : String) : Option String := do
  let command := trim command
  if command.isEmpty then none
  else
    let first ← (splitWhitespace command).find? (! isEnvAssignment ·)
    let basename := lastPart first '/'
    if !basename.isEmpty && !containsChar basename '=' then some basename else none

/-- `MAX_TOKENS` of `argv_shape`. -/
def maxTokens : ℕ := 24

def tokenShape (index : ℕ) (token : String) : String :=
  if index == 0 then "cmd"
  else if startsWith token "-" then "<flag>"
  else if !token.isEmpty && token.toList.all Char.isDigit then "<num>"
  else if containsChar token '/' || startsWith token "~" || startsWith token "." then "<path>"
  else if containsChar token '=' then "<kv>"
  else "<arg>"

/-- Token-class summary of an argument vector: no argument value survives. -/
def argvShape (argv : List String) : Option String :=
  if argv.isEmpty then none
  else
    let shape := (argv.take maxTokens).zipIdx.map fun (token, index) => tokenShape index token
    let shape := if argv.length > maxTokens then shape ++ ["<trunc>"] else shape
    some (" ".intercalate shape)

/-- The shape of an argument vector depends only on the kinds of its tokens. -/
theorem argvShape_congr {argv argv' : List String}
    (h : List.Forall₂ (fun token token' => tokenShape 1 token = tokenShape 1 token') argv argv') :
    argvShape argv = argvShape argv' := by
  have hshapes n k : ((argv.take n).zipIdx k).map (fun (token, index) => tokenShape index token) =
        ((argv'.take n).zipIdx k).map fun (token, index) => tokenShape index token := by
    induction h generalizing n k with
    | nil => rfl
    | cons hhead _ ih =>
      cases n with
      | zero => rfl
      | succ n =>
        simp only [List.take_succ_cons, List.zipIdx_cons, List.map_cons, ih, List.cons.injEq,
          and_true]
        cases k with
        | zero => rfl
        | succ k => simpa [tokenShape] using hhead
  have hlength := h.length_eq
  have hempty : argv.isEmpty = argv'.isEmpty := by
    cases h <;> rfl
  simp [argvShape, hempty, hlength, hshapes]

section Digest

variable [External]

def digestHex (value : String) : String := External.sha256Hex value

/-- A digest over the executable basename and the argv shape, both already content-free. -/
def commandFingerprint (basename shape : Option String) : Option String :=
  if basename.isNone && shape.isNone then none
  else some (digestHex (redactionVersion ++ "\n" ++ basename.getD "" ++ "\n" ++ shape.getD ""))

end Digest

/-! ### Network destinations -/

/-- Known model-provider hosts, with the provider each names. -/
def modelProviderHosts : List (String × String) :=
  [("openai.azure.com", "azure.ai.openai"), ("api.openai.com", "openai"),
    ("api.anthropic.com", "anthropic"), ("generativelanguage.googleapis.com", "gcp.gen_ai"),
    ("aiplatform.googleapis.com", "gcp.gen_ai"), ("bedrock-runtime", "aws.bedrock"),
    ("api.mistral.ai", "mistral"), ("api.cohere.com", "cohere"), ("api.groq.com", "groq"),
    ("api.deepseek.com", "deepseek"), ("api.x.ai", "xai"), ("openrouter.ai", "openrouter")]

def modelProvider (host : String) : Option String :=
  (modelProviderHosts.find? fun (needle, _) => contains host needle).map (·.2)

def stripScheme (target : String) : String :=
  ((splitOnce target "://").map (·.2)).getD target

/-- The part of `target` before its first `/`, `?` or `#`. -/
def authority (target : String) : String :=
  ((split target (fun c => c == '/' || c == '?' || c == '#')).head?).getD target

def normalizeHost (target : String) : Option String := do
  let authority := authority (stripScheme (trim target))
  let authority := ((rsplitOnce authority "@").map (·.2)).getD authority
  let host ← match stripPrefix authority "[" with
    | some rest => (splitOnce rest "]").map (·.1)
    | none => (split authority (· == ':')).head?
  let host := toAsciiLowercase (trimEndMatches (trim host) '.')
  if host.isEmpty then none else some host

/-- One octet of `Ipv4Addr::from_str`: one to three digits, no leading zero, at most 255. -/
def parseOctet (cs : List Char) : Option ℕ :=
  if cs.length ≤ 3 && !(1 < cs.length && cs.head? == some '0') then
    (parseDigits cs).filter (· ≤ 255)
  else none

/-- `Ipv4Addr::from_str`. -/
def parseIpv4 (cs : List Char) : Option (List ℕ) :=
  let octets := (splitChars (· == '.') cs).mapM parseOctet
  octets.filter (·.length == 4)

def hexValue (c : Char) : Option ℕ :=
  if c.isDigit then some (c.toNat - 48)
  else if 'a' ≤ c && c ≤ 'f' then some (c.toNat - 87)
  else if 'A' ≤ c && c ≤ 'F' then some (c.toNat - 55)
  else none

/-- One group of `Ipv6Addr::from_str`: one to four hexadecimal digits. -/
def parseGroup (cs : List Char) : Option ℕ :=
  if cs.isEmpty || 4 < cs.length then none
  else (cs.mapM hexValue).map (·.foldl (fun n d => 16 * n + d) 0)

/-- The segments of a run of groups, the last of which may be an IPv4 address that stands
for two segments. -/
def parseGroups (groups : List (List Char)) : Option (List ℕ) :=
  match groups with
  | [] => some []
  | [last] =>
    match parseGroup last, parseIpv4 last with
    | some segment, _ => some [segment]
    | none, some [a, b, c, d] => some [256 * a + b, 256 * c + d]
    | none, _ => none
  | group :: rest => do
    let segment ← parseGroup group
    let segments ← parseGroups rest
    some (segment :: segments)

/-- The groups of one side of a `::`, none for the empty string. -/
def groupsOf (cs : List Char) : List (List Char) :=
  if cs.isEmpty then [] else splitChars (· == ':') cs

/-- `Ipv6Addr::from_str`: eight segments, or fewer around one `::`. An IPv4 tail is accepted
only at the very end. -/
def parseIpv6 (cs : List Char) : Option (List ℕ) := do
  match splitOnceChars [':', ':'] cs with
  | some (front, back) =>
    let front ← (groupsOf front).mapM parseGroup
    let back ← parseGroups (groupsOf back)
    if front.length + back.length ≤ 7 then
      some (front ++ List.replicate (8 - front.length - back.length) 0 ++ back)
    else none
  | none => (parseGroups (groupsOf cs)).filter (·.length == 8)

def isPrivateAddress (host : String) : Bool :=
  match parseIpv4 host.toList with
  | some (a :: b :: _) =>
    a == 10 || (a == 172 && 16 ≤ b && b ≤ 31) || (a == 192 && b == 168) ||
      (a == 169 && b == 254) || a == 127
  | _ =>
    match parseIpv6 host.toList with
    | some (first :: rest) =>
      (first :: rest) == [0, 0, 0, 0, 0, 0, 0, 1] || first / 512 == 0xfc00 / 512 ||
        first / 64 == 0xfe80 / 64
    | _ => false

def etldPlusOne (host : String) : String :=
  let labels := split host (· == '.')
  if labels.length ≤ 2 then host
  else
    let lastTwo := ".".intercalate (labels.drop (labels.length - 2))
    if multiLabelSuffixes.elem lastTwo && 3 ≤ labels.length then
      ".".intercalate (labels.drop (labels.length - 3))
    else lastTwo

/-- Classify a network destination to at most eTLD+1, never a path or query. -/
def destinationClass (host : String) (provider : Option String) : Option String := do
  let host ← normalizeHost host
  match provider.filter fun provider => modelProviderHosts.any (·.2 == provider) with
  | some provider => some ("model_provider:" ++ provider)
  | none =>
    match modelProvider host with
    | some provider => some ("model_provider:" ++ provider)
    | none =>
      if host == "localhost" || host == "127.0.0.1" || host == "::1" || startsWith host "127." then
        some "localhost"
      else if isPrivateAddress host then some "private_net"
      else if packageRegistryHosts.elem host then some "package_registry"
      else if vcsHosts.elem host then some "vcs_host"
      else some ("public:" ++ etldPlusOne host)

/-- Port carried by a `host:port` or URL-shaped target, when present. -/
def destinationPort (target : String) : Option ℕ := do
  let authority := authority (stripScheme target)
  if startsWith authority "[" then
    let (_, port) ← rsplitOnce authority "]:"
    parseUnsigned 65535 port
  else
    let (_, port) ← rsplitOnce authority ":"
    parseUnsigned 65535 port

end AgentSight.Bridge.Metadata
