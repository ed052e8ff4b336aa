/-
# The configuration of the server

`load_config` of `src/cpp_mcp/server/config.py`: the environment variables, each checked on its
own.  The allowed roots go into the configuration as they are spelled; that they are absolute and
directories is all that is looked at.

The path guard compares resolved paths with them, so whether it lets through what it should
depends on their spelling: `loaded_complete_iff`.
-/

import CppMcp.Files.Lookup
import CppMcp.Lib.Outline
import CppMcp.Py.Parse

namespace CppMcp
namespace Server

open Py (isabs split strip lower parseInt shlexSplit Path)
open Files (Host Under Complete)

/-- What `load_config` raises: a `ConfigError`, or the `ValueError` of `shlex.split`. -/
inductive LoadError where
  | configError (message : String)
  | valueError (message : String)
  deriving DecidableEq, Repr

/-- `ServerConfig`. -/
structure ServerConfig where
  allowed_roots : List String
  default_flags : List String
  cache_capacity : {n : ℤ // 0 < n}
  ast_max_nodes : {n : ℤ // 0 < n}
  ast_max_bytes : {n : ℤ // 0 < n}
  transport : String
  http_bind : String
  http_port : {n : ℤ // 0 < n}
  roots_ne_nil : allowed_roots ≠ []
  transport_known : transport = "stdio" ∨ transport = "http"

/-- The environment. -/
abbrev Env := List (String × String)

/-- `source.get(name, default)`. -/
def Env.getD (source : Env) (name default : String) : String := (source.lookup name).getD default

/-- `_parse_positive_int`. -/
def parsePositiveInt (value var_name : String) : Except LoadError {n : ℤ // 0 < n} :=
  match parseInt value with
  | none => .error (.configError
      ("CONFIG_ERROR: " ++ var_name ++ " must be a positive integer, got " ++ Py.repr value))
  | some parsed =>
    if h : 0 < parsed then .ok ⟨parsed, h⟩
    else .error (.configError
      ("CONFIG_ERROR: " ++ var_name ++ " must be positive, got " ++ toString parsed))

variable (h : Host)

/-- The loop over the entries of `CPP_MCP_ALLOWED_ROOTS`. -/
def parseRoots : List String → Except LoadError (List String)
  | [] => .ok []
  | entry :: entries =>
    let entry := strip entry
    if entry = "" then parseRoots entries
    else if !isabs entry then
      .error (.configError
        ("CONFIG_ERROR: CPP_MCP_ALLOWED_ROOTS entry is not absolute: " ++ Py.repr entry))
    else if !h.isdir entry then
      .error (.configError ("CONFIG_ERROR: CPP_MCP_ALLOWED_ROOTS entry does not exist or is not a" ++
        " directory: " ++ Py.repr entry))
    else do return entry :: (← parseRoots entries)

/-- `CPP_MCP_ALLOWED_ROOTS`, of which at least one entry has to be left. -/
def loadRoots (source : Env) : Except LoadError {roots : List String // roots ≠ []} :=
  let raw_roots := strip (source.getD "CPP_MCP_ALLOWED_ROOTS" "")
  if raw_roots = "" then .error (.configError "CONFIG_ERROR: CPP_MCP_ALLOWED_ROOTS is required")
  else do
    let roots ← parseRoots h (split raw_roots ':')
    if hne : roots ≠ [] then return ⟨roots, hne⟩
    else .error (.configError "CONFIG_ERROR: CPP_MCP_ALLOWED_ROOTS contained no valid entries")

/-- `CPP_MCP_TRANSPORT`. -/
def loadTransport (source : Env) : Except LoadError {t : String // t = "stdio" ∨ t = "http"} :=
  let transport := lower (strip (source.getD "CPP_MCP_TRANSPORT" "stdio"))
  if ht : transport = "stdio" ∨ transport = "http" then .ok ⟨transport, ht⟩
  else .error (.configError
    ("CONFIG_ERROR: CPP_MCP_TRANSPORT must be 'stdio' or 'http', got " ++ Py.repr transport))

/-- `load_config`. -/
def loadConfig (source : Env) : Except LoadError ServerConfig := do
  let roots ← loadRoots h source
  let default_flags ← (shlexSplit (source.getD "CPP_MCP_DEFAULT_FLAGS"
    "-std=c++20 -I. -x c++")).mapError LoadError.valueError
  let cache_capacity ←
    parsePositiveInt (source.getD "CPP_MCP_CACHE_CAPACITY" "128") "CPP_MCP_CACHE_CAPACITY"
  let ast_max_nodes ←
    parsePositiveInt (source.getD "CPP_MCP_AST_MAX_NODES" "5000") "CPP_MCP_AST_MAX_NODES"
  let ast_max_bytes ←
    parsePositiveInt (source.getD "CPP_MCP_AST_MAX_BYTES" "1048576") "CPP_MCP_AST_MAX_BYTES"
  let transport ← loadTransport source
  let http_bind := strip (source.getD "CPP_MCP_HTTP_BIND" "127.0.0.1")
  let http_port ← parsePositiveInt (source.getD "CPP_MCP_HTTP_PORT" "8000") "CPP_MCP_HTTP_PORT"
  return {
    allowed_roots := roots.1
    default_flags
    cache_capacity
    ast_max_nodes
    ast_max_bytes
    transport := transport.1
    http_bind
    http_port
    roots_ne_nil := roots.2
    transport_known := transport.2 }

variable {h}

/-- Every root that `_parse_roots` accepts is absolute and a directory. -/
theorem parseRoots_spec {entries roots : List String} (hroots : parseRoots h entries = .ok roots) :
    ∀ root ∈ roots, isabs root = true ∧ h.isdir root = true := by
  induction entries generalizing roots with
  | nil =>
    cases hroots
    exact fun root hroot => absurd hroot List.not_mem_nil
  | cons entry entries ih =>
    rw [parseRoots] at hroots
    split_ifs at hroots with hempty habs hdir
    · exact ih hroots
    · obtain ⟨rest, hrest, hroots⟩ := Except.bind_eq_ok.mp hroots
      cases hroots
      intro root hroot
      rcases List.mem_cons.mp hroot with rfl | hroot
      · exact ⟨by simpa using habs, by simpa using hdir⟩
      · exact ih hrest root hroot

/-- **What is known of the roots of a configuration:** they are absolute and directories. -/
theorem loadConfig_roots {source : Env} {config : ServerConfig}
    (hload : loadConfig h source = .ok config) :
    ∀ root ∈ config.allowed_roots, isabs root = true ∧ h.isdir root = true := by
  obtain ⟨roots, hroots, hload⟩ := Except.bind_eq_ok.mp hload
  obtain ⟨flags, -, hload⟩ := Except.bind_eq_ok.mp hload
  obtain ⟨capacity, -, hload⟩ := Except.bind_eq_ok.mp hload
  obtain ⟨nodes, -, hload⟩ := Except.bind_eq_ok.mp hload
  obtain ⟨bytes, -, hload⟩ := Except.bind_eq_ok.mp hload
  obtain ⟨transport, -, hload⟩ := Except.bind_eq_ok.mp hload
  obtain ⟨port, -, hload⟩ := Except.bind_eq_ok.mp hload
  cases hload
  unfold loadRoots at hroots
  dsimp only at hroots
  split_ifs at hroots
  obtain ⟨parsed, hparsed, hroots⟩ := Except.bind_eq_ok.mp hroots
  split_ifs at hroots
  cases hroots
  exact parseRoots_spec hparsed

/-- **When the guard is complete for a loaded configuration:** when every configured root,
resolved, is at or below a root that is spelled in normal form. -/
theorem loaded_complete_iff (h : Host) (source : Env) (config : ServerConfig)
    (hload : loadConfig h source = .ok config) :
    Complete h config.allowed_roots ↔ ∀ root ∈ config.allowed_roots,
      Under config.allowed_roots (h.fs.realpath (split root '/')) :=
  Files.complete_iff (loadConfig_roots hload)

/-- A directory `/proj` with one file in it. -/
def projHost : Host where
  fs :=
    { entries := [(["proj"], .dir), (["proj", "a.cpp"], .file)]
      nodup := by decide
      plain := by decide
      below := by decide }
  cwd := []
  cwd_dir := rfl

/-- `loaded_complete_iff` for a configuration with one root, which is a directory. -/
theorem loaded_complete_iff_projHost : ∃ config,
    loadConfig projHost [("CPP_MCP_ALLOWED_ROOTS", "/proj")] = .ok config ∧
      (Complete projHost config.allowed_roots ↔ ∀ root ∈ config.allowed_roots,
        Under config.allowed_roots (projHost.fs.realpath (split root '/'))) := by
  have hsome : (loadConfig projHost [("CPP_MCP_ALLOWED_ROOTS", "/proj")]).toOption.isSome = true := by
    decide +kernel
  cases hload : loadConfig projHost [("CPP_MCP_ALLOWED_ROOTS", "/proj")] with
  | error e =>
    rw [hload] at hsome
    exact absurd hsome Bool.false_ne_true
  | ok config => exact ⟨config, rfl, loaded_complete_iff projHost _ config hload⟩

/-- **A slash behind a root closes it:** `/proj/` is accepted, and then nothing in it is let
through. -/
theorem slashedRoot_not_complete : ∃ config,
    loadConfig projHost [("CPP_MCP_ALLOWED_ROOTS", "/proj/")] = .ok config ∧
      ¬Complete projHost config.allowed_roots := by
  have hroots : (loadConfig projHost [("CPP_MCP_ALLOWED_ROOTS", "/proj/")]).map
      ServerConfig.allowed_roots = .ok ["/proj/"] := by decide +kernel
  cases hload : loadConfig projHost [("CPP_MCP_ALLOWED_ROOTS", "/proj/")] with
  | error e => rw [hload] at hroots; exact nomatch hroots
  | ok config =>
    rw [hload] at hroots
    have hroots : config.allowed_roots = ["/proj/"] := Except.ok.inj hroots
    refine ⟨config, rfl, fun hcomplete => ?_⟩
    rw [hroots] at hcomplete
    have hlookup : projHost.lookup "/proj/a.cpp" = some ["proj", "a.cpp"] := by decide +kernel
    have hok := hcomplete "/proj/a.cpp" ["proj", "a.cpp"] hlookup (by decide +kernel)
      ⟨"/proj/", List.mem_singleton_self _, by decide +kernel⟩
    exact absurd hok (by decide +kernel)

end Server
end CppMcp
