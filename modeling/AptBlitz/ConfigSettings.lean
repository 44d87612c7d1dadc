import AptBlitz.ByteSizes
import AptBlitz.ConfigAgreement

/-! # Where the server's settings come from

    `Config::load` writes the settings of the file into the environment, as
    texts, and reads all of them from there.  Setting by setting that gives
    what the environment has, or else what the file has, or else the default
    (`load_settings`).  The way through the environment loses one thing: where
    the entries of a list end, if they have commas. -/

namespace BlitzConfigSettings

open RustText RustOs BlitzUrlMap BlitzConfig BlitzConfigAgreement BlitzByteSizes

variable {host : Host} {clap : Clap} {config : Config} {env env' : Env} {name : Text}
  {T U : Type} {parse : OsText → Option T} {read : Text → Option T} {default value : T}

/-! ## Values and their texts -/

/-- What is relied on in clap: a value that it accepts is the value that it
    was given. -/
structure Reads (clap : Clap) : Prop extends Sound clap where
  u16 : ∀ v n, clap.u16 v = some n → ∃ s, toStr v = some s ∧ readU16 s = some n
  u32 : ∀ v n, clap.u32 v = some n → ∃ s, toStr v = some s ∧ readU32 s = some n

/-- What the environment has, or else the file, or else the default. -/
def effective (fromEnv fromFile : Option T) (default : T) : T :=
  (fromEnv.or fromFile).getD default

/-- An argument, read from the variable after the file has been applied. -/
theorem effective_of_arg {text : Option Text} {arg : String}
    (hread : ∀ v x, parse v = some x → ∃ s, toStr v = some s ∧ read s = some x)
    (henv : env' arg.toList = overlay (env arg.toList) text)
    (harg : argValue env' arg parse default = some value) :
    value = effective ((var env arg.toList).bind read) (text.bind read) default := by
  have hgiven : ∀ {s}, env' arg.toList = some (ofText s) → read s = some value := by
    intro s hs
    rw [argValue, hs] at harg
    obtain ⟨s', hs', hvalue⟩ := hread _ _ harg
    rw [toStr_ofText] at hs'
    exact Option.some.inj hs' ▸ hvalue
  cases hvar : var env arg.toList with
  | some s =>
      rw [overlay_of_var hvar, eq_of_var hvar] at henv
      rw [effective, Option.bind_some, hgiven henv]
      rfl
  | none =>
      cases text with
      | some s =>
          rw [overlay_some hvar] at henv
          rw [effective, Option.bind_none, Option.bind_some, hgiven henv]
          rfl
      | none =>
          rw [overlay] at henv
          rw [argValue, henv] at harg
          cases hunset : env arg.toList with
          | none =>
              rw [hunset] at harg
              exact (Option.some.inj harg).symm
          | some v =>
              -- a value that is no text is refused
              rw [hunset] at harg
              obtain ⟨s, hs, -⟩ := hread _ _ harg
              rw [var, hunset, Option.bind_some, hs] at hvar
              cases hvar

/-- What the discovered file has. -/
def file (host : Host) (get : YamlConfig → Option U) : Option U := (discovered host).bind get

/-- A setting whose text in the file is `textOf`, and whose value there is
    `inFile`. -/
theorem setting {arg : String} {textOf : YamlConfig → Option Text} {inFile : Option T}
    (hback : (file host textOf).bind read = inFile) (h : loadEnv host = .ok env') (key : String)
    (hname : arg.toList = varName key.toList)
    (hkey : ∀ y : YamlConfig, (key.toList, textOf y) ∈ y.settings)
    (hread : ∀ v x, parse v = some x → ∃ s, toStr v = some s ∧ read s = some x)
    (harg : argValue env' arg parse default = some value) :
    value = effective ((var host.env arg.toList).bind read) inFile default := by
  have henv := loadEnv_get h key.toList textOf hkey
  rw [← hname] at henv
  rw [← hback]
  exact effective_of_arg hread henv harg

/-- A list of the file; an empty one is none. -/
def pieces (list : Option (List Text)) : Option (List Text) :=
  (list.filter fun entries => entries ≠ []).map fun entries => entries.flatMap (split ',')

section Example

end Example

end BlitzConfigSettings
