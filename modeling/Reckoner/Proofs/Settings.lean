/-
Reckoner.Proofs.Settings — profiles do not leak into each other.

The settings of a profile are read from `variableNames` and nothing else
(`forProfile_congr`). The name of a variable is put together from a profile and
a key, both of which may have underscores, and it comes apart again in one way
only: behind no underscore of a key does another key begin
(`eq_of_profiledName_eq`). So the variable `Q_KEY` of another profile is none of
those names.

Names alone do not decide what a look-up finds, for an environment keeps
entries, `NAME=value`, and a look-up goes by the beginning of an entry. A
profile that begins like an entry of `Q_KEY` reads on in its value. That is the
only way from one profile into another, and it is open
(`forProfile_apart`, `forProfile_reads_into_value`).

  1. Blocks of variables
  2. What a look-up finds
  3. Keys and profiles
  4. What settings depend on
  5. Other profiles
-/
import Mathlib.Data.List.Infix
import Reckoner.Settings

namespace Reckoner

/-! ## 1. Blocks of variables -/

namespace Environment

/-- The variables of a process. The equals sign ends a name, so no name has one. -/
structure Block where
  entries : List (String × String)
  named : ∀ v ∈ entries, '=' ∉ v.1.toList

/-- What a process finds in its variables. -/
def Block.environment (b : Block) : Environment := .ofList b.entries

/-- The blocks differ at most in the variable of one name, which one of them may
lack, or have with another value or in another place. -/
def Block.AgreeBut (name : String) (b b' : Block) : Prop :=
  b.entries.filter (·.1 ≠ name) = b'.entries.filter (·.1 ≠ name)

/-! ## 2. What a look-up finds -/

/-- An entry without its value is the name and the equals sign. -/
theorem entry_empty (name : String) : entry name "" = name.toList ++ ['='] := by
  simp [entry]

/-- A look-up that finds an entry asks for its name, or for something that begins
with the name and an equals sign. -/
theorem eq_or_prefix_of_entry {name asked value : String} {rest : List Char}
    (hname : '=' ∉ name.toList) (h : entry asked "" ++ rest = entry name value) :
    asked = name ∨ entry name "" <+: asked.toList := by
  rw [entry_empty, entry, List.append_eq_append_iff] at h
  rcases h with ⟨tail, htail, -⟩ | ⟨tail, htail, hvalue⟩
  · -- The name would go on behind the equals sign of what is asked for.
    exact absurd (by simp [htail]) hname
  · cases tail with
    | nil =>
      rw [List.append_nil] at htail
      exact absurd (by simp [← htail]) hname
    | cons c tail =>
      obtain ⟨rfl, -⟩ := List.cons.inj hvalue
      rcases List.eq_nil_or_concat tail with rfl | ⟨inner, last, rfl⟩
      · left
        exact String.toList_inj.1 (List.append_cancel_right htail)
      · right
        have hasked : asked.toList = name.toList ++ '=' :: inner := by
          rw [List.concat_eq_append, ← List.cons_append, ← List.append_assoc] at htail
          exact List.append_inj_left' htail rfl
        rw [hasked, entry_empty]
        exact ⟨inner, by simp⟩

/-- An entry that a look-up does not find might as well be missing. -/
theorem ofList_filter {entries : List (String × String)} {name asked : String}
    (h : ∀ v ∈ entries, v.1 = name → (entry asked "").isPrefixOf? (entry v.1 v.2) = none) :
    ofList (entries.filter (·.1 ≠ name)) asked = ofList entries asked := by
  induction entries with
  | nil => rfl
  | cons v entries ih =>
    have hrest := ih fun v' hv' => h v' (List.mem_cons_of_mem v hv')
    unfold ofList at hrest ⊢
    by_cases hv : v.1 = name
    · have hnone := h v List.mem_cons_self hv
      rw [List.filter_cons_of_neg (by simp [hv]), List.findSome?_cons, hnone, hrest]
      rfl
    · rw [List.filter_cons_of_pos (by simp [hv]), List.findSome?_cons, List.findSome?_cons, hrest]

/-- Two blocks that agree but for one variable give the same to every look-up that
neither asks for it nor begins like an entry of it. -/
theorem Block.AgreeBut.lookup {name asked : String} {b b' : Block} (h : b.AgreeBut name b')
    (hne : asked ≠ name) (hbegins : ¬ entry name "" <+: asked.toList) :
    b'.environment asked = b.environment asked := by
  have hdrop : ∀ c : Block,
      ofList (c.entries.filter (·.1 ≠ name)) asked = c.environment asked := by
    intro c
    refine ofList_filter ?_
    intro v hv hvname
    rw [Option.eq_none_iff_forall_ne_some]
    intro rest hrest
    rw [List.isPrefixOf?_eq_some_iff_append_eq, hvname] at hrest
    have hproper := c.named v hv
    rw [hvname] at hproper
    rcases eq_or_prefix_of_entry hproper hrest with heq | hprefix
    · exact hne heq
    · exact hbegins hprefix
  rw [← hdrop b', ← hdrop b, h]

end Environment

namespace Settings

open Environment (profiledName entry)

/-! ## 3. Keys and profiles -/

/-- No key ends in an underscore and another key. -/
theorem not_suffix_of_mem_keys : ∀ key ∈ keys, ∀ key' ∈ keys,
    ¬ '_' :: key.toList <:+ key'.toList := by
  decide +kernel

theorem notMem_equals_of_mem_keys : ∀ key ∈ keys, '=' ∉ key.toList := by
  decide +kernel

theorem toList_profiledName (profile key : String) :
    (profiledName profile key).toList = profile.toList ++ '_' :: key.toList := by
  simp [profiledName]

/-- The key of a variable cannot be cut in two ways out of its name. -/
theorem eq_of_append_keys {key key' : String} (hkey : key ∈ keys) (hkey' : key' ∈ keys)
    {front front' : List Char} (h : front ++ '_' :: key.toList = front' ++ '_' :: key'.toList) :
    front = front' := by
  -- Otherwise one of the two keys would end in an underscore and the other one.
  have hcut : ∀ {k k' : String}, k ∈ keys → k' ∈ keys → ∀ {tail : List Char},
      '_' :: k.toList = tail ++ '_' :: k'.toList → tail = [] := by
    intro k k' hk hk' tail htail
    cases tail with
    | nil => rfl
    | cons c tail =>
      obtain ⟨-, htail⟩ := List.cons.inj htail
      exact absurd ⟨tail, htail.symm⟩ (not_suffix_of_mem_keys k' hk' k hk)
  rw [List.append_eq_append_iff] at h
  rcases h with ⟨tail, htail, hrest⟩ | ⟨tail, htail, hrest⟩
  · simpa [hcut hkey hkey' hrest] using htail.symm
  · simpa [hcut hkey' hkey hrest] using htail

/-- The name of a variable tells the profile that it belongs to. -/
theorem eq_of_profiledName_eq {profile profile' key key' : String} (hkey : key ∈ keys)
    (hkey' : key' ∈ keys) (h : profiledName profile key = profiledName profile' key') :
    profile = profile' := by
  have hchars := congrArg String.toList h
  rw [toList_profiledName, toList_profiledName] at hchars
  exact String.toList_inj.1 (eq_of_append_keys hkey hkey' hchars)

/-- A key alone is the variable of no profile. -/
theorem profiledName_ne_key {profile key key' : String} (hkey : key ∈ keys) (hkey' : key' ∈ keys) :
    profiledName profile key ≠ key' := by
  intro h
  have hchars := congrArg String.toList h
  rw [toList_profiledName] at hchars
  exact not_suffix_of_mem_keys key hkey key' hkey' ⟨profile.toList, hchars⟩

/-- The variables of another profile are none of those that a profile reads. -/
theorem ne_of_mem_variableNames {profile other key name : String} (hkey : key ∈ keys)
    (hother : other ≠ Text.upperCase profile) (hname : name ∈ variableNames profile) :
    name ≠ profiledName other key := by
  rw [variableNames, List.mem_append, List.mem_map] at hname
  rintro rfl
  rcases hname with hbare | ⟨key', hkey', hprofiled⟩
  · exact profiledName_ne_key hkey hbare rfl
  · exact hother (eq_of_profiledName_eq hkey hkey' hprofiled.symm)

/-- An equals sign in a name that a profile reads stands in the profile. -/
theorem prefix_of_mem_variableNames {profile other name : String}
    (hname : name ∈ variableNames profile) (h : entry other "" <+: name.toList) :
    entry other "" <+: (Text.upperCase profile).toList := by
  have hequals : ∀ {cs : List Char}, entry other "" <+: cs → '=' ∈ cs := by
    intro cs hcs
    exact hcs.mem (by simp [entry])
  rw [variableNames, List.mem_append, List.mem_map] at hname
  rcases hname with hbare | ⟨key, hkey, rfl⟩
  · exact absurd (hequals h) (notMem_equals_of_mem_keys name hbare)
  · rw [toList_profiledName] at h
    rcases List.prefix_or_prefix_of_prefix h (List.prefix_append _ _) with hshort | hlong
    · exact hshort
    · -- Else the equals sign, which comes last, would stand in the key.
      obtain ⟨tail, htail⟩ := hlong
      rw [← htail, List.prefix_append_right_inj] at h
      rcases List.eq_nil_or_concat tail with rfl | ⟨inner, last, rfl⟩
      · simp at htail
        simp [htail]
      · have hlast : last = '=' := by
          have hends := congrArg List.getLast? htail
          simpa [Environment.entry_empty] using hends
        have hmem : '=' ∈ '_' :: key.toList := h.mem (by simp [hlast])
        simp [notMem_equals_of_mem_keys key hkey] at hmem

/-! ## 4. What settings depend on -/

/-- Settings are read from the variables of their profile and from no others. -/
theorem forProfile_congr {env env' : Environment} {profile : String}
    (h : ∀ name ∈ variableNames profile, env' name = env name) :
    forProfile env' profile = forProfile env profile := by
  have hsetting : ∀ key ∈ keys, env'.setting? (Text.upperCase profile) key =
      env.setting? (Text.upperCase profile) key := by
    intro key hkey
    have hbare := h key (List.mem_append_left _ hkey)
    have hprofiled := h (profiledName (Text.upperCase profile) key)
      (List.mem_append_right _ (List.mem_map_of_mem hkey))
    simp only [Environment.setting?, Environment.nonempty?, hbare, hprofiled]
  have htext : ∀ key ∈ keys, ∀ default, env'.text (Text.upperCase profile) key default =
      env.text (Text.upperCase profile) key default := by
    intro key hkey default
    simp only [Environment.text, hsetting key hkey]
  have hnumber : ∀ key ∈ keys, ∀ limit default,
      env'.number limit (Text.upperCase profile) key default =
        env.number limit (Text.upperCase profile) key default := by
    intro key hkey limit default
    simp only [Environment.number, hsetting key hkey]
  simp (disch := decide) only [forProfile, htext, hnumber]

/-! ## 5. Other profiles -/

/-- A profile that begins like an entry of a variable reads on in its value. -/
theorem port_of_prefix {name profile : String} {rest : List Char}
    (h : (Text.upperCase profile).toList = entry name "" ++ rest) :
    (forProfile (.ofList [(name, String.ofList rest ++ "_PORT=77")]) profile).server.port = 77 := by
  have hfound : Environment.ofList [(name, String.ofList rest ++ "_PORT=77")]
      (profiledName (Text.upperCase profile) "PORT") = some "77" := by
    have hentry : (entry (profiledName (Text.upperCase profile) "PORT") "").isPrefixOf?
        (entry name (String.ofList rest ++ "_PORT=77")) = some ['7', '7'] := by
      rw [List.isPrefixOf?_eq_some_iff_append_eq, Environment.entry_empty, toList_profiledName, h]
      simp [entry]
    simp [Environment.ofList, hentry]
  have hprofile : Text.upperCase profile ≠ "" := by
    intro hempty
    rw [hempty] at h
    simp [entry] at h
  have hsetting : Environment.setting? (.ofList [(name, String.ofList rest ++ "_PORT=77")])
      (Text.upperCase profile) "PORT" = some "77" := by
    simp [Environment.setting?, Environment.nonempty?, hprofile, hfound]
  simp only [forProfile, Environment.number, hsetting]
  decide +kernel

/-- Whatever becomes of the variable of another profile and a key, whether it is set,
changed or removed, the settings of a profile stay as they are in every field, as long
as the profile does not begin with the name of that variable and an equals sign. If it
does, then some value of the variable changes them. -/
theorem forProfile_apart {profile other key : String} (hkey : key ∈ keys)
    (hother : other ≠ Text.upperCase profile) :
    (¬ entry (profiledName other key) "" <+: (Text.upperCase profile).toList →
      ∀ b b' : Environment.Block, b.AgreeBut (profiledName other key) b' →
        forProfile b'.environment profile = forProfile b.environment profile) ∧
    (entry (profiledName other key) "" <+: (Text.upperCase profile).toList →
      ∃ value, forProfile (.ofList [(profiledName other key, value)]) profile ≠
        forProfile (.ofList []) profile) := by
  constructor
  · intro hbegins b b' hagree
    refine forProfile_congr ?_
    intro name hname
    refine hagree.lookup (ne_of_mem_variableNames hkey hother hname) ?_
    intro hprefix
    exact hbegins (prefix_of_mem_variableNames hname hprefix)
  · rintro ⟨rest, hrest⟩
    refine ⟨String.ofList rest ++ "_PORT=77", ?_⟩
    intro hsame
    have hport := port_of_prefix hrest.symm
    have hdefault : (forProfile (.ofList []) profile).server.port = 8080 := by
      simp [forProfile, Environment.number, Environment.setting?, Environment.nonempty?,
        Environment.ofList]
    rw [hsame, hdefault] at hport
    exact absurd hport (by decide)

/-- A profile named like the beginning of a key of another: the variable that gives the
other its origin leaves it alone. -/
theorem forProfile_apart_overlapping :
    let b : Environment.Block := ⟨[("DEV_CORS_PORT", "81")], by decide⟩
    let b' : Environment.Block := ⟨[("DEV_CORS_ORIGIN", "x"), ("DEV_CORS_PORT", "81")], by decide⟩
    "CORS_ORIGIN" ∈ keys ∧ "DEV" ≠ Text.upperCase "dev_cors" ∧
    b.AgreeBut (profiledName "DEV" "CORS_ORIGIN") b' ∧
    (forProfile b'.environment "dev").server.corsOrigin = "x" ∧
    (forProfile b.environment "dev_cors").server.port = 81 ∧
    forProfile b'.environment "dev_cors" = forProfile b.environment "dev_cors" := by
  intro b b'
  have hkey : "CORS_ORIGIN" ∈ keys := by decide
  have hother : "DEV" ≠ Text.upperCase "dev_cors" := by decide +kernel
  have hagree : b.AgreeBut (profiledName "DEV" "CORS_ORIGIN") b' := by
    unfold Environment.Block.AgreeBut
    decide +kernel
  have hbegins : ¬ entry (profiledName "DEV" "CORS_ORIGIN") "" <+:
      (Text.upperCase "dev_cors").toList := by decide +kernel
  exact ⟨hkey, hother, hagree, by decide +kernel, by decide +kernel,
    (forProfile_apart hkey hother).1 hbegins b b' hagree⟩

/-- Not every profile is apart from the variables of every other one: this one begins
like an entry of `X_HOST`, and its port is read out of what stands there. -/
theorem forProfile_reads_into_value :
    let b : Environment.Block := ⟨[], by decide⟩
    let b' : Environment.Block := ⟨[("X_HOST", "1_PORT=77")], by decide⟩
    "HOST" ∈ keys ∧ "X" ≠ Text.upperCase "x_host=1" ∧ b.AgreeBut (profiledName "X" "HOST") b' ∧
    (forProfile b.environment "x_host=1").server.port = 8080 ∧
    (forProfile b'.environment "x_host=1").server.port = 77 := by
  intro b b'
  have hother : "X" ≠ Text.upperCase "x_host=1" := by decide +kernel
  have hagree : b.AgreeBut (profiledName "X" "HOST") b' := by
    unfold Environment.Block.AgreeBut
    decide +kernel
  exact ⟨by decide, hother, hagree, by decide +kernel, by decide +kernel⟩

end Settings

end Reckoner
