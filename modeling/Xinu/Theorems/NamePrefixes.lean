import Xinu.Theorems.NameSubstitution

/-!
# The longest prefix

`naminit` mounts the prefixes in an order in which none stands before a longer one that it is a prefix of, and the empty prefix last. A
prefix that is mounted afterwards stands behind the empty one, which matches every name: unless `naminit` has mounted the same prefix,
`mount` returns `OK` and the new entry is never used.
-/

namespace Xinu

namespace Nam

open Buffer PrefixRules

/-- The name of a device in the namespace. -/
def devicePath (dvname : String) : List UInt8 := chars "/dev/" ++ (chars dvname).map lower

/-- What `naminit` mounts for the devices. -/
def deviceRules (names : List String) (i : Nat) : List (Rule UInt8 Int) := (names.zipIdx i).map fun q => ⟨devicePath q.1, [], q.2⟩

/-- What `naminit` mounts. -/
def naminitRules : List (Rule UInt8 Int) := deviceRules dvnames 0 ++
  [⟨chars "/dev/null", [], NULLDEV⟩, ⟨chars "/remote/", chars "remote:", RFILESYS⟩, ⟨chars "/local/", [], LFILESYS⟩,
    ⟨chars "~/", [], LFILESYS⟩, ⟨chars "/", chars "root:", RFILESYS⟩, ⟨[], [], LFILESYS⟩]

/-- The arguments of a call of `mount`. -/
structure Mount where
  path : Buffer
  replace : Buffer
  device : Int

/-- The prefix that a call mounts. -/
def Mount.key (c : Mount) : List UInt8 := Buffer.text c.path NM_PRELEN 0

/-- A sequence of calls of `mount` that all succeed. -/
def mounts : List Mount → Names → Option Names
  | [], t => some t
  | c :: calls, t =>
    if (mount c.path c.replace c.device t).1 = OK then mounts calls (mount c.path c.replace c.device t).2 else none

/-- The table entry that `namrepl` uses. -/
def used (t : Names) (name : Buffer) : Option Nat := (matchLoop t name t.nnames 0).map Prod.fst

/-- The prefix of a table entry. -/
def Names.key (t : Names) (i : Nat) : List UInt8 := (t.nametab i).rule.key

/-- The entry that `namrepl` uses has the longest prefix that matches, a prefix longer than all others that match takes effect, and the name
of a device leads to the device. -/
structure ResolvesLongest (t : Names) : Prop where
  longest : ∀ (name : Buffer) s, name.IsText 0 s → (∃ j < t.nnames, t.key j <+: s) →
    ∃ i < t.nnames, used t name = some i ∧ t.key i <+: s ∧ ∀ j < t.nnames, t.key j <+: s → (t.key j).length ≤ (t.key i).length
  effective : ∀ (name : Buffer) s, name.IsText 0 s → ∀ j < t.nnames, t.key j <+: s →
    (∀ i < t.nnames, i ≠ j → t.key i <+: s → (t.key i).length < (t.key j).length) → used t name = some j
  devices : ∀ q ∈ dvnames.zipIdx, ∀ (name : Buffer) s, name.IsText 0 s → devicePath q.1 <+: s →
    ∃ i, used t name = some i ∧ (t.nametab i).ndevice = q.2

section Naminit

variable {nptr tptr tmpstr : Buffer} {t : Names} {p : List UInt8}

theorem isText_constant {s : String} (h : 0 ∉ chars s) : (constant s).IsText 0 (chars s) := isText_getD h

theorem lower_ne_zero {c : UInt8} (h : c ≠ 0) : lower c ≠ 0 := by
  unfold lower
  split
  · next hcase =>
    intro h0
    have h65 : 65 ≤ c.toNat := hcase.1
    have h90 : c.toNat ≤ 90 := hcase.2
    have hsum : (c.toNat + 32) % 256 = 0 := congrArg UInt8.toNat h0
    omega
  · exact h

/-- The loop over `devprefix` copies it. -/
theorem devprefixLoop_text {left len : Nat} (h : nptr.IsText len p) (hlen : p.length < left) :
    ∃ b, devprefixLoop nptr left len tptr = (len + p.length, b) ∧ b.Holds len p ∧ ∀ i < len, b i = tptr i := by
  induction left generalizing len p tptr with
  | zero => exact absurd hlen (Nat.not_lt_zero _)
  | succ left ih =>
    rw [devprefixLoop]
    cases p with
    | nil =>
      rw [if_pos (isText_nil.mp h)]
      exact ⟨_, rfl, trivial, fun i hi => Function.update_of_ne (Nat.ne_of_lt hi) _ _⟩
    | cons c p =>
      obtain ⟨hc, hread, h⟩ := isText_cons.mp h
      obtain ⟨b, hloop, hb, hsame⟩ := @ih (Function.update tptr len c) p (len + 1) h (Nat.lt_of_succ_lt_succ hlen)
      rw [hread, if_neg hc, hloop]
      refine ⟨b, ?_, ⟨?_, hb⟩, fun i hi => ?_⟩
      · rw [List.length_cons, Nat.add_right_comm, Nat.add_assoc]
      · rw [hsame len (Nat.lt_succ_self len), Function.update_self]
      · rw [hsame i (Nat.lt_succ_of_lt hi), Function.update_of_ne (Nat.ne_of_lt hi)]

/-- The loop over a device name copies it in lower case, with its terminator. -/
theorem devnameLoop_text {o left j len : Nat} (h : nptr.IsText j p) (hlen : p.length < left) :
    ∃ b, devnameLoop nptr o left j len tptr = (len + p.length + 1, b) ∧ b.IsText (o + j) (p.map lower) ∧
      ∀ i < o + j, b i = tptr i := by
  induction left generalizing j len p tptr with
  | zero => exact absurd hlen (Nat.not_lt_zero _)
  | succ left ih =>
    rw [devnameLoop]
    cases p with
    | nil =>
      have hzero : lower (nptr j) = 0 := by
        rw [isText_nil.mp h]
        decide
      rw [if_pos hzero, hzero]
      exact ⟨_, rfl, isText_nil.mpr (Function.update_self _ _ _), fun i hi => Function.update_of_ne (Nat.ne_of_lt hi) _ _⟩
    | cons c p =>
      obtain ⟨hc, hread, h⟩ := isText_cons.mp h
      obtain ⟨b, hloop, hb, hsame⟩ := @ih (Function.update tptr (o + j) (lower c)) p (j + 1) (len + 1) h (Nat.lt_of_succ_lt_succ hlen)
      rw [hread, if_neg (lower_ne_zero hc), hloop]
      refine ⟨b, ?_, isText_cons.mpr ⟨lower_ne_zero hc, ?_, hb⟩, fun i hi => ?_⟩
      · rw [List.length_cons, Nat.add_right_comm len 1, Nat.add_assoc len]
      · rw [hsame (o + j) (Nat.lt_succ_self _), Function.update_self]
      · rw [hsame i (Nat.lt_succ_of_lt hi), Function.update_of_ne (Nat.ne_of_lt hi)]

/-- A device is mounted under its name. -/
theorem naminitDevice_text {dvname : String} {dvnum : Int} (h0 : 0 ∉ chars dvname) (hlen : (chars dvname).length < 59)
    (hdev : ¬isbaddev dvnum) (hcount : t.nnames < NNAMES) (hok : t.Ok) :
    (naminitDevice (constant dvname) dvnum tmpstr t).2.rules = t.rules ++ [⟨devicePath dvname, [], dvnum⟩] ∧
      (naminitDevice (constant dvname) dvnum tmpstr t).2.Ok ∧
      (naminitDevice (constant dvname) dvnum tmpstr t).2.nnames = t.nnames + 1 := by
  have hzero : (0 : UInt8) ∉ chars "/dev/" := by decide
  obtain ⟨b, hloop, hb, _⟩ := @devprefixLoop_text (constant "/dev/") tmpstr (chars "/dev/") 6 0 (isText_constant hzero) (by decide)
  obtain ⟨b', hloop', hb', hsame⟩ := @devnameLoop_text (constant dvname) b (chars dvname) 5 250 0 5 (isText_constant h0) (by omega)
  have htext : b'.IsText 0 (devicePath dvname) := by
    refine ⟨?_, ?_⟩
    · rw [devicePath, List.mem_append, not_or]
      exact ⟨hzero, hb'.1⟩
    · rw [devicePath, List.append_assoc, holds_append]
      refine ⟨hb.congr fun i hi => hsame _ ?_, hb'.2⟩
      rw [Nat.zero_add]
      exact hi
  have hlen' : (devicePath dvname).length < NM_PRELEN := by
    rw [devicePath, List.length_append, List.length_map]
    change 5 + (chars dvname).length < 64
    omega
  have hempty : (constant "").IsText 0 [] := isText_constant (by decide)
  obtain ⟨hr, hrules, hok'⟩ := mount_text (t := t) htext hempty hlen' (by decide) hdev hcount
  have hguard : ¬5 + (chars dvname).length + 1 > NM_MAXLEN := by
    change ¬5 + (chars dvname).length + 1 > 256
    omega
  have heq : naminitDevice (constant dvname) dvnum tmpstr t = (b', (mount b' (constant "") dvnum t).2) := by
    have hplace : 0 + (chars "/dev/").length = 5 := rfl
    have hleft : NM_MAXLEN - 1 - 5 = 250 := rfl
    unfold naminitDevice
    rw [hloop, hplace]
    dsimp only
    rw [hleft, hloop']
    exact if_neg hguard
  rw [heq]
  refine ⟨hrules, hok' hok, ?_⟩
  rw [← length_rules, hrules, List.length_append, length_rules, List.length_singleton]

/-- The loop over the devices mounts each under its name. -/
theorem naminitLoop_rules {names : List String} {i : Nat} (hnames : ∀ n ∈ names, 0 ∉ chars n ∧ (chars n).length < 59)
    (hdevs : ((i + names.length : Nat) : Int) ≤ NDEVS) (hcount : t.nnames + names.length ≤ NNAMES) (hok : t.Ok) :
    (naminitLoop names i tmpstr t).rules = t.rules ++ deviceRules names i ∧ (naminitLoop names i tmpstr t).Ok := by
  induction names generalizing i tmpstr t with
  | nil => exact ⟨(List.append_nil _).symm, hok⟩
  | cons n names ih =>
    rw [List.length_cons] at hdevs hcount
    obtain ⟨⟨h0, hlen⟩, hnames⟩ := List.forall_mem_cons.mp hnames
    have hdev : ¬isbaddev (i : Int) := by
      rintro (hneg | hbig)
      · omega
      · omega
    obtain ⟨hrules, hok', hnn⟩ := @naminitDevice_text tmpstr t n i h0 hlen hdev (by omega) hok
    obtain ⟨hrest, hok''⟩ := @ih (naminitDevice (constant n) i tmpstr t).1 (naminitDevice (constant n) i tmpstr t).2 (i + 1) hnames
      (by omega) (by omega) hok'
    rw [naminitLoop]
    refine ⟨?_, hok''⟩
    rw [hrest, hrules, List.append_assoc]
    rfl

/-- A mount of two string constants. -/
theorem mount_constant {rules : List (Rule UInt8 Int)} {path replace : String} {device : Int} (h : t.rules = rules ∧ t.Ok)
    (h0 : 0 ∉ chars path ∧ 0 ∉ chars replace) (hlen : (chars path).length < NM_PRELEN ∧ (chars replace).length < NM_REPLLEN)
    (hdev : ¬isbaddev device) (hcount : rules.length < NNAMES) :
    (mount (constant path) (constant replace) device t).2.rules = rules ++ [⟨chars path, chars replace, device⟩] ∧
      (mount (constant path) (constant replace) device t).2.Ok := by
  obtain ⟨rfl, hok⟩ := h
  rw [length_rules] at hcount
  obtain ⟨_, hrules, hok'⟩ := mount_text (t := t) (isText_constant h0.1) (isText_constant h0.2) hlen.1 hlen.2 hdev hcount
  exact ⟨hrules, hok' hok⟩

/-- A mount for a device that does not exist. -/
theorem mount_baddev {path replace : Buffer} {device : Int} (h : isbaddev device) : mount path replace device t = (SYSERR, t) := by
  rcases mount_cases path replace device t with hfail | ⟨_, _, _, _, _, _, hdev, _⟩
  · exact hfail
  · exact absurd h hdev

/-- The table behind `naminit`. -/
theorem naminit_rules (tmpstr : Buffer) (t : Names) : (naminit tmpstr t).rules = naminitRules ∧ (naminit tmpstr t).Ok := by
  have hnames : ∀ n ∈ dvnames, 0 ∉ chars n ∧ (chars n).length < 59 := by decide +kernel
  have hdevices : (naminitLoop dvnames 0 tmpstr { t with nnames := 0 }).rules = deviceRules dvnames 0 ∧
      (naminitLoop dvnames 0 tmpstr { t with nnames := 0 }).Ok :=
    naminitLoop_rules hnames (by decide) (show 0 + dvnames.length ≤ NNAMES by decide) (.of_empty rfl)
  unfold naminit
  dsimp only
  generalize naminitLoop dvnames 0 tmpstr { t with nnames := 0 } = t at hdevices ⊢
  have hnull := @mount_constant t _ "/dev/null" "" NULLDEV hdevices (by decide) (by decide) (by decide) (by decide)
  generalize (mount (constant "/dev/null") (constant "") NULLDEV t).2 = t at hnull ⊢
  have hremote := @mount_constant t _ "/remote/" "remote:" RFILESYS hnull (by decide) (by decide) (by decide) (by decide)
  generalize (mount (constant "/remote/") (constant "remote:") RFILESYS t).2 = t at hremote ⊢
  have hlocal := @mount_constant t _ "/local/" "" LFILESYS hremote (by decide) (by decide) (by decide) (by decide)
  generalize (mount (constant "/local/") (constant "") LFILESYS t).2 = t at hlocal ⊢
  rw [@mount_baddev t (constant "/dev/") (constant "") SYSERR (Or.inl (by decide))]
  dsimp only
  have hhome := @mount_constant t _ "~/" "" LFILESYS hlocal (by decide) (by decide) (by decide) (by decide)
  generalize (mount (constant "~/") (constant "") LFILESYS t).2 = t at hhome ⊢
  have hroot := @mount_constant t _ "/" "root:" RFILESYS hhome (by decide) (by decide) (by decide) (by decide)
  generalize (mount (constant "/") (constant "root:") RFILESYS t).2 = t at hroot ⊢
  obtain ⟨hrules, hok⟩ := @mount_constant t _ "" "" LFILESYS hroot (by decide) (by decide) (by decide) (by decide)
  refine ⟨?_, hok⟩
  have hempty : chars "" = [] := rfl
  rw [hrules, naminitRules]
  simp only [List.append_assoc, List.cons_append, List.nil_append, hempty]

end Naminit

section Mounts

variable {tmpstr : Buffer} {t t' : Names} {calls : List Mount}

/-- Calls that succeed append a rule each. -/
theorem mounts_rules (h : mounts calls t = some t') (hok : t.Ok) :
    (∃ more, t'.rules = t.rules ++ more ∧ more.map Rule.key = calls.map Mount.key) ∧ t'.Ok := by
  induction calls generalizing t with
  | nil =>
    cases h
    exact ⟨⟨[], (List.append_nil _).symm, rfl⟩, hok⟩
  | cons c calls ih =>
    rw [mounts] at h
    split at h
    · next hstatus =>
      rcases mount_cases c.path c.replace c.device t with hfail | ⟨p, r, hp, hr, hp64, hr96, hdev, hcount⟩
      · rw [hfail] at hstatus
        have hok : SYSERR = OK := hstatus
        exact absurd hok (by decide)
      · obtain ⟨_, hrules, hok'⟩ := mount_text hp hr hp64 hr96 hdev hcount
        obtain ⟨⟨more, hmore, hkeys⟩, hall⟩ := ih h (hok' hok)
        refine ⟨⟨⟨p, r, c.device⟩ :: more, ?_, ?_⟩, hall⟩
        · rw [hmore, hrules, List.append_assoc, List.singleton_append]
        · rw [List.map_cons, List.map_cons, hkeys, Mount.key, hp.text_eq (Nat.le_of_lt hp64)]
    · cases h

/-- A prefix in the table has no zero byte. -/
theorem key_not_zero (hok : t.Ok) {r : Rule UInt8 Int} (h : r ∈ t.rules) : 0 ∉ r.key := by
  obtain ⟨i, hi, rfl⟩ := List.mem_map.mp h
  exact (hok.entries i (List.mem_range.mp hi)).key.1

theorem mem_rules {i : Nat} (h : i < t.nnames) : (t.nametab i).rule ∈ t.rules := List.mem_map.mpr ⟨i, List.mem_range.mpr h, rfl⟩

/-- The rules of the table are ordered exactly when `namrepl` always uses an entry with the longest prefix. -/
theorem longestFirst_iff_used (hok : t.Ok) : LongestFirst {s | 0 ∉ s} t.rules ↔ ∀ (name : Buffer) s, name.IsText 0 s →
    (∃ j < t.nnames, t.key j <+: s) → ∃ i < t.nnames, used t name = some i ∧ t.key i <+: s ∧
      ∀ j < t.nnames, t.key j <+: s → (t.key j).length ≤ (t.key i).length := by
  constructor
  · rintro L name s hs ⟨j, hj, hkey⟩
    cases hmatch : matchLoop t name t.nnames 0 with
    | none => exact absurd hkey (first_eq_none_iff.mp ((matchLoop_none_iff hok hs).mp hmatch) _ (mem_rules hj))
    | some q =>
      obtain ⟨i, plen⟩ := q
      obtain ⟨hi, hfirst, _⟩ := matchLoop_some hok hs hmatch
      refine ⟨i, hi, by rw [used, hmatch]; rfl, (first_matches hfirst).2, fun j hj hkey => ?_⟩
      exact L s hs.1 _ hfirst _ (mem_rules hj) hkey
  · intro H s h0 r hfirst r' hr' hkey
    obtain ⟨j, hj, rfl⟩ := List.mem_map.mp hr'
    obtain ⟨i, hi, hused, hmatch, hlong⟩ := H _ s (isText_getD h0) ⟨j, List.mem_range.mp hj, hkey⟩
    rw [used, Option.map_eq_some_iff] at hused
    obtain ⟨⟨i', plen⟩, hloop, rfl⟩ := hused
    have hsame := (matchLoop_some hok (isText_getD h0) hloop).2.1
    rw [hfirst] at hsame
    rw [Option.some.inj hsame]
    exact hlong j (List.mem_range.mp hj) hkey

/-! ## The rules of naminit -/

theorem naminitRules_ordered : naminitRules.Pairwise fun r r' => r.key <+: r'.key → r'.key <+: r.key := by decide +kernel

theorem naminitRules_nil : [] ∈ naminitRules.map Rule.key := by decide +kernel

/-- No prefix begins with the name of a device, other than the name itself. -/
theorem naminitRules_device : ∀ q ∈ dvnames.zipIdx, ∀ r ∈ naminitRules, devicePath q.1 <+: r.key → r.dest = q.2 := by decide +kernel

/-- The entry for the name of a device, in a table that begins with the rules of `naminit`. -/
theorem used_device (hok : t.Ok) {more : List (Rule UInt8 Int)} (hrules : t.rules = naminitRules ++ more) {q : String × Nat}
    (hq : q ∈ dvnames.zipIdx) {name : Buffer} {s : List UInt8} (hs : name.IsText 0 s) (hkey : devicePath q.1 <+: s) :
    ∃ i, used t name = some i ∧ (t.nametab i).ndevice = q.2 := by
  have hfirst : first t.rules s = first naminitRules s := by rw [hrules, first_append naminitRules_nil]
  have hmem : ⟨devicePath q.1, [], q.2⟩ ∈ naminitRules := List.mem_append_left _ (List.mem_map.mpr ⟨q, hq, rfl⟩)
  cases hmatch : matchLoop t name t.nnames 0 with
  | none =>
    have hnone := (matchLoop_none_iff hok hs).mp hmatch
    rw [hfirst] at hnone
    exact absurd hkey (first_eq_none_iff.mp hnone _ hmem)
  | some p =>
    obtain ⟨i, plen⟩ := p
    obtain ⟨_, hsome, _⟩ := matchLoop_some hok hs hmatch
    rw [hfirst] at hsome
    obtain ⟨hr, hpre⟩ := first_matches hsome
    have hordered : LongestFirst Set.univ naminitRules := longestFirst_of_pairwise naminitRules_ordered
    have hlen := hordered s trivial _ hsome _ hmem hkey
    refine ⟨i, by rw [used, hmatch]; rfl, ?_⟩
    exact naminitRules_device q hq _ hr (List.prefix_of_prefix_length_le hkey hpre hlen)

end Mounts

/-- For every sequence of successful calls of `mount` behind `naminit`: names are resolved by the longest prefix exactly when each call
mounts a prefix that `naminit` has mounted. -/
theorem longest_prefix_iff {tmpstr : Buffer} {t₀ t : Names} {calls : List Mount} (h : mounts calls (naminit tmpstr t₀) = some t) :
    ResolvesLongest t ↔ ∀ c ∈ calls, c.key ∈ naminitRules.map Rule.key := by
  obtain ⟨hinit, hok₀⟩ := naminit_rules tmpstr t₀
  obtain ⟨⟨more, hrules, hkeys⟩, hok⟩ := mounts_rules h hok₀
  rw [hinit] at hrules
  have hcond : (∀ c ∈ calls, c.key ∈ naminitRules.map Rule.key) ↔ ∀ r ∈ more, r.key ∈ naminitRules.map Rule.key := by
    rw [← List.forall_mem_map (f := Mount.key) (P := fun k => k ∈ naminitRules.map Rule.key), ← hkeys, List.forall_mem_map]
  have hmore : ∀ r ∈ more, r.key ∈ {s : List UInt8 | 0 ∉ s} := fun r hr =>
    key_not_zero hok (hrules ▸ List.mem_append_right _ hr)
  have hordered := longestFirst_append_iff (longestFirst_of_pairwise naminitRules_ordered) naminitRules_nil hmore
  rw [hcond, ← hordered, ← hrules, longestFirst_iff_used hok]
  constructor
  · exact fun R => R.longest
  · intro H
    refine ⟨H, fun name s hs j hj hkey hlong => ?_, fun q hq name s hs hkey => used_device hok hrules hq hs hkey⟩
    obtain ⟨i, hi, hused, hmatch, hle⟩ := H name s hs ⟨j, hj, hkey⟩
    rw [hused]
    by_contra hne
    have hlt := hlong i hi (fun h => hne (congrArg some h)) hmatch
    have hle' := hle j hj hkey
    omega

/-- One more mount of a string constant behind `naminit`. -/
theorem mounts_constant {path : String} {device : Int} (h0 : 0 ∉ chars path) (hlen : (chars path).length < NM_PRELEN)
    (hdev : ¬isbaddev device) (tmpstr : Buffer) (t₀ : Names) :
    ∃ t, mounts [⟨constant path, constant "", device⟩] (naminit tmpstr t₀) = some t ∧
      t.rules = naminitRules ++ [⟨chars path, [], device⟩] ∧ t.Ok := by
  obtain ⟨hinit, hok⟩ := naminit_rules tmpstr t₀
  have hcount : (naminit tmpstr t₀).nnames < NNAMES := by
    rw [← length_rules, hinit]
    decide
  obtain ⟨hstatus, hrules, hok'⟩ := mount_text (isText_constant h0) (isText_constant (by decide : 0 ∉ chars "")) hlen (by decide) hdev
    hcount
  rw [hinit] at hrules
  refine ⟨_, ?_, hrules, hok' hok⟩
  rw [mounts, if_pos hstatus]
  rfl

/-- A mount of the prefix `/` behind `naminit`, which has mounted it before. -/
theorem longest_prefix_slash : ∃ t, mounts [⟨constant "/", constant "", LFILESYS⟩] (naminit (fun _ => 0) rootTable) = some t ∧
    ResolvesLongest t := by
  obtain ⟨t, hmounts, _⟩ := @mounts_constant "/" LFILESYS (by decide) (by decide) (by decide) (fun _ => 0) rootTable
  refine ⟨t, hmounts, (longest_prefix_iff hmounts).mpr fun c hc => ?_⟩
  rw [List.mem_singleton.mp hc]
  decide +kernel

/-- A mount of the prefix `/tmp/` for the local file system behind `naminit`: it succeeds, and the names that begin with the prefix are
still sent to the remote file system. -/
theorem longest_prefix_tmp : ∃ t, mounts [⟨constant "/tmp/", constant "", LFILESYS⟩] (naminit (fun _ => 0) rootTable) = some t ∧
    (namrepl t (constant "/tmp/a") fun _ => 0).1 = RFILESYS ∧ ¬ResolvesLongest t := by
  obtain ⟨t, hmounts, hrules, hok⟩ := @mounts_constant "/tmp/" LFILESYS (by decide) (by decide) (by decide) (fun _ => 0) rootTable
  refine ⟨t, hmounts, ?_, fun R => ?_⟩
  · have htext : (constant "/tmp/a").IsText 0 (chars "/tmp/a") := isText_constant (by decide)
    have hrewrite : rewrite (NM_MAXLEN - 1) t.rules (chars "/tmp/a") = some (RFILESYS, chars "root:tmp/a") := by
      rw [hrules]
      decide +kernel
    exact ((replaces_of hok (Or.inl (by decide))).found _ (fun _ => 0) htext _ _ hrewrite).1
  · have hall := (longestFirst_iff_used hok).mpr R.longest
    have hname : (0 : UInt8) ∉ chars "/tmp/" := by decide
    have hfirst : first t.rules (chars "/tmp/") = some ⟨chars "/", chars "root:", RFILESYS⟩ := by
      rw [hrules]
      decide +kernel
    have hmem : ⟨chars "/tmp/", [], LFILESYS⟩ ∈ t.rules := hrules ▸ List.mem_append_right _ List.mem_cons_self
    have hle := hall _ hname _ hfirst _ hmem List.prefix_rfl
    exact absurd hle (by decide)

end Nam

end Xinu
