import Hat.Core.Machine
import Hat.MqttBBDevices.BinaryOutput

/-!
# Coloured lights

An `RGBPwm` has three output channels, an intensity and a colour.  A command switches the light,
or sets the intensity, or sets the colour; what is sent to a channel is the part of the colour
scaled by the intensity.  The intensity and the colour are saved and read back at the start.
-/

namespace Hat

open Hat.Hsrv

structure RGBPwm where
  params : MParams
  name : String
  status : String
  Rout : String
  Gout : String
  Bout : String
  R : ℤ
  G : ℤ
  B : ℤ
  currentTime : ℚ
  currentIntensity : String
  currentColor : String
  intensity : ℤ
  outputStatus : String
  deriving DecidableEq

namespace RGBPwm

def isHexDigit (c : Char) : Bool :=
  c.isDigit || ('a' ≤ c && c ≤ 'f') || ('A' ≤ c && c ≤ 'F')

def hexDigit (c : Char) : ℕ :=
  if c.isDigit then c.toNat - 48 else if 'a' ≤ c then c.toNat - 87 else c.toNat - 55

/-- The hexadecimal digits at the start. -/
def ha2int (hnum : List Char) : ℤ :=
  ((hnum.takeWhile isHexDigit).foldl (fun value c => 16 * value + hexDigit c) 0 : ℕ)

/-- An `int` has 32 bits. -/
def toInt32 (n : ℤ) : ℤ := n.bmod (2 ^ 32)

def page (device : RGBPwm) : String × String :=
  (device.name, "type=\"target\" value=\"" ++
    (if device.outputStatus = "ON" then device.currentIntensity else "0") ++ "\" color=\"" ++
    device.currentColor ++ "\" status=\"" ++ device.status ++ "\"")

/-- The text, or another one where it is empty. -/
def firstOf (text other : String) : String := if text = "" then other else text

/-- The attributes are those that the files of the device hold. -/
def new (env : Env) (params : MParams) (n : String) : RGBPwm :=
  let params := params.load
  let currentIntensity := firstOf (params.get "intensity") "0"
  { params := params
    name := n
    status := firstOf (params.get "status") "OFF"
    Rout := params.getCategory "red" "output"
    Gout := params.getCategory "green" "output"
    Bout := params.getCategory "blue" "output"
    R := 255
    G := 255
    B := 255
    currentTime := env.unsetDouble
    currentIntensity := currentIntensity
    currentColor := firstOf (params.get "color") (firstOf (params.get "default_color") "ffffff")
    intensity := a2int env currentIntensity
    outputStatus := firstOf (params.get "outputStatus") (firstOf (params.get "default") "OFF") }

def remap (device : RGBPwm) (value : String) : String :=
  firstOf (device.params.getCategory value "remap") value

/-- What is sent for a part of the colour. -/
def level (device : RGBPwm) (component : ℤ) : ℤ :=
  (toInt32 (component * device.intensity)).tdiv 255

/-- One message is filled anew for each channel. -/
def fill (device : RGBPwm) (value out : String) (component : ℤ) (m : MMessage) : MMessage :=
  ({ m with msubtype := out }.add "value"
    (if value = "ON" ∨ value = "OFF" then value else int2a (device.level component))).add "time"
      (double2a device.currentTime)

def sendCmd (device : RGBPwm) (value : String) : List MMessage :=
  let red := device.fill value device.Rout device.R { MMessage.blank with mtype := "devcmd" }
  let green := device.fill value device.Gout device.G red
  let blue := device.fill value device.Bout device.B green
  [red, green, blue]

def save (device : RGBPwm) : RGBPwm :=
  { device with params := (((device.params.add "intensity" (int2a device.intensity)).add "color"
      device.currentColor).add "outputStatus" device.outputStatus).save }

def event (device : RGBPwm) : MMessage :=
  ((({ MMessage.blank with mtype := "event", msubtype := device.params.get "eventname" }.add "value"
    (if device.outputStatus = "OFF" then "0" else device.currentIntensity)).add "intensity"
    (int2a device.intensity)).add "color" device.currentColor)

/-- The value and the colour of a command, in one text or in two fields. -/
def fields (msg : MMessage) : String × String :=
  match NameList.init [] (msg.getString "value") '.' with
  | value :: color :: _ => (value, color)
  | _ => (msg.getString "value", msg.getString "color")

def setColor (color : String) (device : RGBPwm) : RGBPwm :=
  { device with
    currentColor := color
    R := ha2int (color.toList.take 2)
    G := ha2int ((color.toList.drop 2).take 2)
    B := ha2int ((color.toList.drop 4).take 2) }

/-- The device is switched, or takes the intensity, or takes the colour. -/
def obey (env : Env) (value color : String) (device : RGBPwm) : RGBPwm × List MMessage :=
  if value = "OFF" ∨ value = "ON" then
    let after := { device with outputStatus := value }
    (after, after.sendCmd value)
  else if device.currentIntensity ≠ value ∧ value ≠ "" then
    let tvalue := device.remap value
    let after := { device with currentIntensity := value, intensity := a2int env tvalue }
    (after, after.sendCmd tvalue)
  else if color ≠ "" ∧ color ≠ device.currentColor then
    let after := device.setColor color
    (after, after.sendCmd "100")
  else (device, [])

variable (host : DeviceHost)

/-- What the light shows, in answers and reports. -/
def shown (device : RGBPwm) : String :=
  if device.outputStatus = "ON" then
    "value=" ++ device.currentIntensity ++ ",color=" ++ device.currentColor
  else "value=0,color=" ++ device.currentColor

def execcmd (env : Env) (msg : MMessage) (device : RGBPwm) : RGBPwm × OutputReply :=
  if msg.msubtype = device.name then
    let carried := fields msg
    let obeyed := obey env carried.1 carried.2 { device with currentTime := env.gettime }
    let after := obeyed.1.save
    (after,
      { notified := obeyed.2 ++ [obeyed.1.event] ++ (if host.mqtt = "ON" then
          [host.mkMqttmessage env after.status "event" after.name after.shown
            (msg.getString "mqtttag")] else [])
        answer := if msg.getString "tag" ≠ "" then
          host.rpcNotify (msg.getString "tag") "value" after.shown else none
        published := some after.page })
  else (device, ⟨[], none, none⟩)

end RGBPwm

end Hat

/-!
# Runs of a coloured light

A light that starts white shows the intensity and the colour that were asked for last, as long as
no command asks for another intensity and another colour at once.
-/

namespace Hat

open Hat.Hsrv

/-- What a command asks a light for. -/
inductive LightRequest
  | power (on : Bool)
  | intensity (value : String)
  | color (parts : String)
  | both (value parts : String)
  deriving DecidableEq

namespace LightRequest

/-- The value and the colour that the command carries. -/
def fields : LightRequest → String × String
  | power on => (if on then "ON" else "OFF", "")
  | intensity value => (value, "")
  | color parts => ("", parts)
  | both value parts => (value, parts)

/-- The intensity after the command, from the one before. -/
def intensityFrom (before : String) : LightRequest → String
  | power _ => before
  | intensity value => value
  | color _ => before
  | both value _ => value

def colorFrom (before : String) : LightRequest → String
  | power _ => before
  | intensity _ => before
  | color parts => parts
  | both _ parts => parts

end LightRequest

namespace RGBPwm

/-- Six hexadecimal digits. -/
def IsColor (color : String) : Prop :=
  color.toList.length = 6 ∧ ∀ c ∈ color.toList, isHexDigit c = true

instance (color : String) : Decidable (IsColor color) :=
  decidable_of_iff (color.toList.length = 6 ∧ color.toList.all isHexDigit = true)
    (and_congr_right fun _ => List.all_eq_true)

/-- A part of a colour, by its place. -/
def component (color : String) (k : ℕ) : ℤ :=
  match (color.toList.drop (2 * k)).take 2 with
  | [high, low] => (16 * hexDigit high + hexDigit low : ℕ)
  | _ => 0

/-- The number that the intensity is remapped to. -/
def number (device : RGBPwm) (value : String) : Option ℤ := scanInt (device.remap value).toList

/-- A text that is remapped to a number, or is one. -/
structure IsIntensity (device : RGBPwm) (value : String) : Prop where
  ne_empty : value ≠ ""
  ne_power : ¬(value = "OFF" ∨ value = "ON")
  isSome : (device.number value).isSome = true

/-- What is sent to the channels, with their names. -/
def orders (notified : List MMessage) : List (String × String) :=
  (notified.filter fun m => m.mtype = "devcmd").map fun m => (m.msubtype, m.getString "value")

/-- The parts of the colour scaled by a number, for the three channels. -/
def levels (device : RGBPwm) (color : String) (n : ℤ) : List (String × String) :=
  [(device.Rout, int2a ((component color 0 * n).tdiv 255)),
    (device.Gout, int2a ((component color 1 * n).tdiv 255)),
    (device.Bout, int2a ((component color 2 * n).tdiv 255))]

theorem ha2int_pair {high low : Char} (hhigh : isHexDigit high = true)
    (hlow : isHexDigit low = true) :
    ha2int [high, low] = (16 * hexDigit high + hexDigit low : ℕ) := by
  simp [ha2int, List.takeWhile, hhigh, hlow]

/-- A light that takes a colour takes its parts. -/
theorem setColor_components {color : String} (hcolor : IsColor color) (device : RGBPwm) :
    (device.setColor color).R = component color 0 ∧
      (device.setColor color).G = component color 1 ∧
      (device.setColor color).B = component color 2 := by
  obtain ⟨hlength, hdigits⟩ := hcolor
  match hchars : color.toList, hlength with
  | [r, r', g, g', b, b'], _ =>
      simp only [hchars, List.forall_mem_cons] at hdigits
      obtain ⟨hr, hr', hg, hg', hb, hb', -⟩ := hdigits
      simp only [setColor, component, hchars]
      exact ⟨ha2int_pair hr hr', ha2int_pair hg hg', ha2int_pair hb hb'⟩

/-- The light has an intensity and a colour, and the numbers that belong to them. -/
structure Lit (device : RGBPwm) (intensity color : String) : Prop where
  currentIntensity : device.currentIntensity = intensity
  currentColor : device.currentColor = color
  isColor : IsColor color
  red : device.R = component color 0
  green : device.G = component color 1
  blue : device.B = component color 2
  number : device.number intensity = some device.intensity

def InInt (n : ℤ) : Prop := -2 ^ 31 ≤ n ∧ n < 2 ^ 31

instance (n : ℤ) : Decidable (InInt n) := inferInstanceAs (Decidable (_ ∧ _))

theorem toInt32_of_inInt {n : ℤ} (h : InInt n) : toInt32 n = n := by
  rw [toInt32, Int.bmod_eq_iff (by decide)]
  obtain ⟨hlow, hhigh⟩ := h
  omega

variable {device : RGBPwm} {intensity color : String}

theorem Lit.setIntensity (h : device.Lit intensity color) {value : String}
    (hvalue : device.IsIntensity value) (env : Env) :
    Lit { device with
      currentIntensity := value
      intensity := a2int env (device.remap value) } value color where
  currentIntensity := rfl
  currentColor := h.currentColor
  isColor := h.isColor
  red := h.red
  green := h.green
  blue := h.blue
  number := by
    obtain ⟨n, hn⟩ := Option.isSome_iff_exists.mp hvalue.isSome
    have hscan : scanInt (device.remap value).toList = some n := hn
    have hread : a2int env (device.remap value) = n := by rw [a2int, hscan, Option.getD_some]
    exact hn.trans (congrArg some hread.symm)

theorem Lit.setColor (h : device.Lit intensity color) {other : String} (hother : IsColor other) :
    Lit (device.setColor other) intensity other where
  currentIntensity := h.currentIntensity
  currentColor := rfl
  isColor := hother
  red := (setColor_components hother device).1
  green := (setColor_components hother device).2.1
  blue := (setColor_components hother device).2.2
  number := h.number

theorem remap_save (value : String) : device.save.remap value = device.remap value := by
  have hsaved : device.save.params.getCategory value "remap" =
      device.params.getCategory value "remap" := by
    change (((device.params.add "intensity" _).add "color" _).add "outputStatus" _).getCategory
      value "remap" = _
    rw [MParams.getCategory_add _ _ _ _ (by decide), MParams.getCategory_add _ _ _ _ (by decide),
      MParams.getCategory_add _ _ _ _ (by decide)]
  rw [remap, remap, hsaved]

theorem Lit.save (h : device.Lit intensity color) : Lit device.save intensity color where
  currentIntensity := h.currentIntensity
  currentColor := h.currentColor
  isColor := h.isColor
  red := h.red
  green := h.green
  blue := h.blue
  number := by
    rw [RGBPwm.number, remap_save]
    exact h.number

theorem mtype_fill (device : RGBPwm) (value out : String) (part : ℤ) (m : MMessage) :
    (device.fill value out part m).mtype = m.mtype := by
  rw [fill, MMessage.mtype_add, MMessage.mtype_add]

theorem msubtype_fill (device : RGBPwm) (value out : String) (part : ℤ) (m : MMessage) :
    (device.fill value out part m).msubtype = out := by
  rw [fill, MMessage.msubtype_add, MMessage.msubtype_add]

/-- A message that is filled anew has the new value and no list of values. -/
theorem getString_fill (device : RGBPwm) (value out : String) (part : ℤ) {m : MMessage}
    (hm : ∀ items, m.fields.find? "value" ≠ some (.mstringList items)) :
    (device.fill value out part m).getString "value" =
        (if value = "ON" ∨ value = "OFF" then value else int2a (device.level part)) ∧
      ∀ items, (device.fill value out part m).fields.find? "value" ≠
        some (.mstringList items) := by
  constructor
  · rw [fill, MMessage.getString_add_of_ne _ _ (by decide)]
    exact MMessage.getString_add_self _ _ _ hm
  · intro items
    rw [fill, MMessage.find?_add_of_ne _ _ (by decide), MMessage.find?_add, if_pos rfl]
    cases hfield : m.fields.find? "value" with
    | none => simp [MMessage.added]
    | some list =>
        cases list with
        | mstring _ => simp [MMessage.added, MstringList.add]
        | mstringList items => exact absurd hfield (hm items)

theorem orders_sendCmd (device : RGBPwm) {value : String}
    (hvalue : ¬(value = "ON" ∨ value = "OFF")) :
    orders (device.sendCmd value) =
      [(device.Rout, int2a (device.level device.R)), (device.Gout, int2a (device.level device.G)),
        (device.Bout, int2a (device.level device.B))] := by
  have hblank : ∀ items, ({ MMessage.blank with mtype := "devcmd" } : MMessage).fields.find?
      "value" ≠ some (.mstringList items) := by
    intro items h
    cases h
  obtain ⟨hred, hredScalar⟩ := getString_fill device value device.Rout device.R hblank
  obtain ⟨hgreen, hgreenScalar⟩ := getString_fill device value device.Gout device.G hredScalar
  obtain ⟨hblue, -⟩ := getString_fill device value device.Bout device.B hgreenScalar
  rw [if_neg hvalue] at hred hgreen hblue
  simp [orders, sendCmd, mtype_fill, msubtype_fill, hred, hgreen, hblue]

/-- The parts of the colour are sent, scaled by the intensity. -/
theorem Lit.orders_sendCmd (h : device.Lit intensity color)
    (hfits : ∀ k < 3, InInt (component color k * device.intensity)) {value : String}
    (hvalue : ¬(value = "ON" ∨ value = "OFF")) :
    orders (device.sendCmd value) = device.levels color device.intensity := by
  rw [RGBPwm.orders_sendCmd device hvalue, h.red, h.green, h.blue, levels, level, level, level,
    toInt32_of_inInt (hfits 0 (by decide)), toInt32_of_inInt (hfits 1 (by decide)),
    toInt32_of_inInt (hfits 2 (by decide))]

/-! ## One command -/

/-- The request is one that a light understands. -/
def Understands (device : RGBPwm) : LightRequest → Prop
  | .power _ => True
  | .intensity value => device.IsIntensity value
  | .color parts => IsColor parts
  | .both value parts => device.IsIntensity value ∧ IsColor parts

/-- The request is for another intensity or another colour. -/
def Changes (device : RGBPwm) (request : LightRequest) : Prop :=
  device.currentIntensity ≠ request.intensityFrom device.currentIntensity ∨
    device.currentColor ≠ request.colorFrom device.currentColor

/-- What is sent are the parts of the colour scaled by the remapped intensity. -/
def Sends (device : RGBPwm) (intensity color : String) (notified : List MMessage) : Prop :=
  ∃ n, device.number intensity = some n ∧ orders notified = device.levels color n

/-- The products of a colour with the remapped intensity are in the range of an `int`. -/
def FitsInt (device : RGBPwm) (intensity color : String) : Prop :=
  ∀ n, device.number intensity = some n → ∀ k < 3, InInt (component color k * n)

/-- Not both the intensity and the colour are new, and what is sent for a new one fits. -/
structure Keeps (device : RGBPwm) (request : LightRequest) : Prop where
  one : device.currentIntensity = request.intensityFrom device.currentIntensity ∨
    device.currentColor = request.colorFrom device.currentColor
  fits : device.Changes request →
    device.FitsInt (request.intensityFrom device.currentIntensity)
      (request.colorFrom device.currentColor)

theorem IsColor.ne_empty (hcolor : IsColor color) : color ≠ "" := by
  rintro rfl
  exact absurd hcolor.1 (by decide)

theorem IsIntensity.remap_ne_power {value : String} (hvalue : device.IsIntensity value) :
    ¬(device.remap value = "ON" ∨ device.remap value = "OFF") := by
  have hsome := hvalue.isSome
  rw [number] at hsome
  rintro (hon | hoff)
  · rw [hon] at hsome
    exact absurd hsome (by decide)
  · rw [hoff] at hsome
    exact absurd hsome (by decide)

section Obey

variable (env : Env) {value parts : String}

theorem obey_intensity (hvalue : device.IsIntensity value) (hne : device.currentIntensity ≠ value)
    (parts : String) :
    obey env value parts device =
      ({ device with
          currentIntensity := value
          intensity := a2int env (device.remap value) },
        sendCmd { device with
          currentIntensity := value
          intensity := a2int env (device.remap value) } (device.remap value)) := by
  rw [obey, if_neg hvalue.ne_power, if_pos ⟨hne, hvalue.ne_empty⟩]

theorem obey_of_same (hpower : ¬(value = "OFF" ∨ value = "ON"))
    (hsame : value = "" ∨ device.currentIntensity = value) :
    obey env value parts device =
      if parts ≠ "" ∧ parts ≠ device.currentColor then
        (device.setColor parts, (device.setColor parts).sendCmd "100")
      else (device, []) := by
  have hneg : ¬(device.currentIntensity ≠ value ∧ value ≠ "") := fun h =>
    hsame.elim h.2 h.1
  rw [obey, if_neg hpower, if_neg hneg]

theorem Lit.obey_intensity (h : device.Lit intensity color) (hvalue : device.IsIntensity value)
    (hne : intensity ≠ value) (hfits : device.FitsInt value color) (parts : String) :
    (obey env value parts device).1.Lit value color ∧
      device.Sends value color (obey env value parts device).2 := by
  rw [RGBPwm.obey_intensity env hvalue (h.currentIntensity ▸ hne)]
  have hafter := h.setIntensity hvalue env
  have hnumber := hafter.number
  exact ⟨hafter, _, hnumber, hafter.orders_sendCmd (hfits _ hnumber) hvalue.remap_ne_power⟩

theorem Lit.obey_color (h : device.Lit intensity color) (hpower : ¬(value = "OFF" ∨ value = "ON"))
    (hsame : value = "" ∨ intensity = value) (hparts : IsColor parts) (hne : color ≠ parts)
    (hfits : device.FitsInt intensity parts) :
    (obey env value parts device).1.Lit intensity parts ∧
      device.Sends intensity parts (obey env value parts device).2 := by
  have hnew : parts ≠ "" ∧ parts ≠ device.currentColor :=
    ⟨hparts.ne_empty, fun heq => hne (h.currentColor.symm.trans heq.symm)⟩
  rw [obey_of_same env hpower (hsame.imp_right h.currentIntensity.trans), if_pos hnew]
  have hafter := h.setColor hparts
  exact ⟨hafter, _, h.number, hafter.orders_sendCmd (hfits _ h.number) (by decide)⟩

theorem Lit.obey_nothing (h : device.Lit intensity color)
    (hpower : ¬(value = "OFF" ∨ value = "ON")) (hsame : value = "" ∨ intensity = value)
    (hparts : parts = "" ∨ color = parts) : obey env value parts device = (device, []) := by
  have hold : ¬(parts ≠ "" ∧ parts ≠ device.currentColor) := fun hnew =>
    hparts.elim hnew.1 fun heq => hnew.2 (heq.symm.trans h.currentColor.symm)
  rw [obey_of_same env hpower (hsame.imp_right h.currentIntensity.trans), if_neg hold]

/-- A request that is kept leaves the light as it was asked for, and a new intensity or a new
colour is sent. -/
theorem Lit.obey (h : device.Lit intensity color) {request : LightRequest}
    (hunderstands : device.Understands request) (hkeeps : device.Keeps request) :
    (RGBPwm.obey env request.fields.1 request.fields.2 device).1.Lit
        (request.intensityFrom intensity) (request.colorFrom color) ∧
      (device.Changes request →
        device.Sends (request.intensityFrom intensity) (request.colorFrom color)
          (RGBPwm.obey env request.fields.1 request.fields.2 device).2) := by
  obtain ⟨hone, hfits⟩ := hkeeps
  rw [Changes] at *
  rw [h.currentIntensity, h.currentColor] at *
  have hempty : ¬(("" : String) = "OFF" ∨ ("" : String) = "ON") := by decide
  cases request with
  | power on =>
      have hvalue : (LightRequest.power on).fields.1 = "OFF" ∨
          (LightRequest.power on).fields.1 = "ON" := by
        cases on
        · exact Or.inl rfl
        · exact Or.inr rfl
      rw [RGBPwm.obey, if_pos hvalue]
      exact ⟨⟨h.currentIntensity, h.currentColor, h.isColor, h.red, h.green, h.blue, h.number⟩,
        fun hchanges => hchanges.elim (absurd rfl) (absurd rfl)⟩
  | intensity value =>
      dsimp only [LightRequest.fields, LightRequest.intensityFrom, LightRequest.colorFrom] at *
      by_cases hvalue : intensity = value
      · rw [h.obey_nothing env hunderstands.ne_power (Or.inr hvalue) (Or.inl rfl)]
        exact ⟨hvalue ▸ h, fun hchanges => hchanges.elim (absurd hvalue) (absurd rfl)⟩
      · have hkept := h.obey_intensity env hunderstands hvalue (hfits (Or.inl hvalue)) ""
        exact ⟨hkept.1, fun _ => hkept.2⟩
  | color parts =>
      dsimp only [LightRequest.fields, LightRequest.intensityFrom, LightRequest.colorFrom] at *
      by_cases hparts : color = parts
      · rw [h.obey_nothing env hempty (Or.inl rfl) (Or.inr hparts)]
        exact ⟨hparts ▸ h, fun hchanges => hchanges.elim (absurd rfl) (absurd hparts)⟩
      · have hkept := h.obey_color env hempty (Or.inl rfl) hunderstands hparts
          (hfits (Or.inr hparts))
        exact ⟨hkept.1, fun _ => hkept.2⟩
  | both value parts =>
      dsimp only [LightRequest.fields, LightRequest.intensityFrom, LightRequest.colorFrom] at *
      obtain ⟨hintensity, hcolor⟩ := hunderstands
      by_cases hvalue : intensity = value
      · by_cases hparts : color = parts
        · rw [h.obey_nothing env hintensity.ne_power (Or.inr hvalue) (Or.inr hparts)]
          exact ⟨hvalue ▸ hparts ▸ h, fun hchanges =>
            hchanges.elim (absurd hvalue) (absurd hparts)⟩
        · subst hvalue
          have hkept := h.obey_color env hintensity.ne_power (Or.inr rfl) hcolor hparts
            (hfits (Or.inr hparts))
          exact ⟨hkept.1, fun _ => hkept.2⟩
      · -- The colour is not looked at, so it has to be the one that is there.
        obtain rfl : color = parts := hone.resolve_left hvalue
        have hkept := h.obey_intensity env hintensity hvalue (hfits (Or.inl hvalue)) color
        exact ⟨hkept.1, fun _ => hkept.2⟩

end Obey

/-- The time of a command does not matter for what is understood. -/
theorem Understands.withTime {request : LightRequest} (h : device.Understands request)
    (time : ℚ) : Understands { device with currentTime := time } request := by
  have hintensity : ∀ {value : String}, device.IsIntensity value →
      IsIntensity { device with currentTime := time } value :=
    fun hvalue => ⟨hvalue.ne_empty, hvalue.ne_power, hvalue.isSome⟩
  cases request with
  | power on => trivial
  | intensity value => exact hintensity h
  | color parts => exact h
  | both value parts => exact ⟨hintensity h.1, h.2⟩

variable (host : DeviceHost) (env : Env)

theorem execcmd_of_addressed {msg : MMessage} (hname : msg.msubtype = device.name) :
    (device.execcmd host env msg).1 =
        (obey env (fields msg).1 (fields msg).2
          { device with currentTime := env.gettime }).1.save ∧
      orders (device.execcmd host env msg).2.notified =
        orders (obey env (fields msg).1 (fields msg).2
          { device with currentTime := env.gettime }).2 := by
  rw [execcmd, if_pos hname]
  refine ⟨rfl, ?_⟩
  have hevent : ∀ after : RGBPwm, after.event.mtype = "event" := fun after => by
    rw [event, MMessage.mtype_add, MMessage.mtype_add, MMessage.mtype_add]
  simp only [orders, List.filter_append, List.map_append]
  split_ifs <;> simp [hevent]

end RGBPwm

/-! ## Runs -/

/-- A light with the intensity and the colour that were asked for last, or were saved. -/
structure LightSite where
  device : RGBPwm
  intensity : String
  color : String

/-- A message with what it asks for. -/
structure LightInput where
  env : Env
  msg : MMessage
  request : LightRequest

namespace LightSite

variable (host : DeviceHost)

def next (site : LightSite) (input : LightInput) : LightSite where
  device := (site.device.execcmd host input.env input.msg).1
  intensity := input.request.intensityFrom site.intensity
  color := input.request.colorFrom site.color

def start (env : Env) (params : MParams) (n : String) : LightSite :=
  let device := RGBPwm.new env params n
  ⟨device, device.currentIntensity, device.currentColor⟩

/-- The message is a command to the light, and carries a request that it understands. -/
structure Asks (site : LightSite) (input : LightInput) : Prop where
  addressed : input.msg.msubtype = site.device.name
  carries : RGBPwm.fields input.msg = input.request.fields
  understands : site.device.Understands input.request

/-- The light has what was asked for last, and its three numbers are the parts of the colour. -/
structure Agrees (site : LightSite) : Prop where
  currentIntensity : site.device.currentIntensity = site.intensity
  currentColor : site.device.currentColor = site.color
  isColor : RGBPwm.IsColor site.device.currentColor
  red : site.device.R = RGBPwm.component site.device.currentColor 0
  green : site.device.G = RGBPwm.component site.device.currentColor 1
  blue : site.device.B = RGBPwm.component site.device.currentColor 2

/-- A command for another intensity or colour sends the parts of the colour, scaled by the
remapped intensity. -/
def Shows (site : LightSite) (input : LightInput) : Prop :=
  site.device.Changes input.request →
    site.device.Sends (input.request.intensityFrom site.device.currentIntensity)
      (input.request.colorFrom site.device.currentColor)
      (site.device.execcmd host input.env input.msg).2.notified

/-- The light starts white, with an intensity that is a number and is remapped to itself. -/
structure StartsWhite (env : Env) (params : MParams) (n : String) : Prop where
  length : (RGBPwm.new env params n).currentColor.toList.length = 6
  white : ∀ c ∈ (RGBPwm.new env params n).currentColor.toList, c = 'f' ∨ c = 'F'
  same : (RGBPwm.new env params n).number (RGBPwm.new env params n).currentIntensity =
    scanInt (RGBPwm.new env params n).currentIntensity.toList
  isSome : (scanInt (RGBPwm.new env params n).currentIntensity.toList).isSome = true

variable {site : LightSite} {input : LightInput}

/-- The light is lit with what was asked for last. -/
def Lit (site : LightSite) : Prop := site.device.Lit site.intensity site.color

theorem Lit.agrees (h : site.Lit) : site.Agrees where
  currentIntensity := h.currentIntensity
  currentColor := h.currentColor
  isColor := h.currentColor ▸ h.isColor
  red := h.currentColor ▸ h.red
  green := h.currentColor ▸ h.green
  blue := h.currentColor ▸ h.blue

/-- White has the parts that every light starts with. -/
theorem component_of_white {color : String} (hlength : color.toList.length = 6)
    (hwhite : ∀ c ∈ color.toList, c = 'f' ∨ c = 'F') :
    RGBPwm.IsColor color ∧ ∀ k < 3, RGBPwm.component color k = 255 := by
  have hdigit : ∀ c : Char, c = 'f' ∨ c = 'F' →
      RGBPwm.isHexDigit c = true ∧ RGBPwm.hexDigit c = 15 := by
    rintro c (rfl | rfl) <;> decide
  refine ⟨⟨hlength, fun c hc => (hdigit c (hwhite c hc)).1⟩, ?_⟩
  match hchars : color.toList, hlength with
  | [r, r', g, g', b, b'], _ =>
      simp only [hchars, List.forall_mem_cons] at hwhite
      obtain ⟨hr, hr', hg, hg', hb, hb', -⟩ := hwhite
      intro k hk
      have hcases : k = 0 ∨ k = 1 ∨ k = 2 := by omega
      rcases hcases with rfl | rfl | rfl
      · simp [RGBPwm.component, hchars, (hdigit r hr).2, (hdigit r' hr').2]
      · simp [RGBPwm.component, hchars, (hdigit g hg).2, (hdigit g' hg').2]
      · simp [RGBPwm.component, hchars, (hdigit b hb).2, (hdigit b' hb').2]

theorem lit_start {env : Env} {params : MParams} {n : String}
    (h : StartsWhite env params n) : (start env params n).Lit := by
  obtain ⟨hcolor, hparts⟩ := component_of_white h.length h.white
  obtain ⟨number, hnumber⟩ := Option.isSome_iff_exists.mp h.isSome
  have hintensity : (RGBPwm.new env params n).intensity = number := by
    change a2int env (RGBPwm.new env params n).currentIntensity = number
    rw [a2int, hnumber, Option.getD_some]
  refine ⟨rfl, rfl, hcolor, (hparts 0 (by decide)).symm, (hparts 1 (by decide)).symm,
    (hparts 2 (by decide)).symm, ?_⟩
  exact (h.same.trans hnumber).trans (congrArg some hintensity.symm)

/-- A command that is kept leaves the light lit with what it asks for, and shows it. -/
theorem Lit.next (h : site.Lit) (hasks : site.Asks input)
    (hkeeps : site.device.Keeps input.request) :
    (site.next host input).Lit ∧ site.Shows host input := by
  have hlit : RGBPwm.Lit { site.device with currentTime := input.env.gettime } site.intensity
      site.color :=
    ⟨h.currentIntensity, h.currentColor, h.isColor, h.red, h.green, h.blue, h.number⟩
  obtain ⟨hafter, hsends⟩ := hlit.obey input.env
    (hasks.understands.withTime input.env.gettime) ⟨hkeeps.one, hkeeps.fits⟩
  obtain ⟨hdevice, horders⟩ := RGBPwm.execcmd_of_addressed host input.env hasks.addressed
  rw [hasks.carries] at hdevice horders
  constructor
  · rw [Lit, LightSite.next, hdevice]
    exact hafter.save
  · intro hchanges
    obtain ⟨number, hnumber, hsent⟩ := hsends hchanges
    rw [h.currentIntensity, h.currentColor]
    exact ⟨number, hnumber, horders.trans hsent⟩

/-- A new colour that comes with a new intensity is lost. -/
theorem not_agrees_of_both (hasks : site.Asks input) (hlit : site.Lit) {value parts : String}
    (hboth : input.request = .both value parts) (hvalue : site.intensity ≠ value)
    (hparts : site.color ≠ parts) : ¬(site.next host input).Agrees := by
  intro h
  have hunderstands := hasks.understands.withTime input.env.gettime
  rw [hboth] at hunderstands
  have hne : site.device.currentIntensity ≠ value := hlit.currentIntensity ▸ hvalue
  have hcolor := h.currentColor
  rw [LightSite.next, (RGBPwm.execcmd_of_addressed host input.env hasks.addressed).1, hasks.carries,
    hboth, LightRequest.fields, RGBPwm.obey_intensity input.env hunderstands.1 hne] at hcolor
  exact hparts (hlit.currentColor.symm.trans hcolor)

/-- A light that starts white follows every run of commands that keep its intensity or its colour:
it has what was asked for last, its numbers are the parts of the colour, and every new intensity
or colour is sent. -/
theorem follows_run (env : Env) (params : MParams) (n : String) (inputs : List LightInput)
    (hstart : StartsWhite env params n)
    (hinputs : Machine.Along (Machine.total (next host))
      (fun site input => site.Asks input ∧ site.device.Keeps input.request)
      (start env params n) inputs) :
    Machine.Always (Machine.total (next host)) Agrees (start env params n) inputs ∧
      Machine.Along (Machine.total (next host)) (Shows host) (start env params n) inputs := by
  have hnext : ∀ (site : LightSite) (input : LightInput) (after : LightSite), site.Lit →
      site.Asks input ∧ site.device.Keeps input.request →
        Machine.total (next host) site input = some after → after.Lit := by
    intro site input after hlit hinput hafter
    rw [← Option.some.inj hafter]
    exact (hlit.next host hinput.1 hinput.2).1
  have hlit := lit_start hstart
  exact ⟨(Machine.always_of_along hnext hlit hinputs).mono fun _ => Lit.agrees,
    Machine.Along.imp_of_guarded
      (fun _ _ hlit hinput => (hlit.next host hinput.1 hinput.2).2) hnext hlit hinputs⟩

/-- A strip with the colour in its file. -/
def strip (color : String) : MParams where
  ty := "output"
  attributes := []
  path := some ("output",
    [⟨"color", "generic", color⟩, ⟨"eventname", "generic", "light"⟩,
      ⟨"red", "output", "pwm1"⟩, ⟨"green", "output", "pwm2"⟩, ⟨"blue", "output", "pwm3"⟩,
      ⟨"FULL", "remap", "255"⟩])
  pathh := none

def command (value : String) (request : LightRequest) : LightInput :=
  ⟨firstNight, (MMessage.mk2 "cmd" "strip").add "value" value, request⟩

def stripInputs : List LightInput :=
  [command "FULL" (.intensity "FULL"), command ".00ff00" (.color "00ff00")]

/-- What has to be known of a command. -/
theorem kept_of_number {site : LightSite} {value : String} {request : LightRequest} {n : ℤ}
    (hname : site.device.name = "strip")
    (hcarries : RGBPwm.fields (command value request).msg = request.fields)
    (hunderstands : site.device.Understands request)
    (hone : site.device.currentIntensity = request.intensityFrom site.device.currentIntensity ∨
      site.device.currentColor = request.colorFrom site.device.currentColor)
    (hnumber : site.device.number (request.intensityFrom site.device.currentIntensity) = some n)
    (hfits : ∀ k < 3, RGBPwm.InInt
      (RGBPwm.component (request.colorFrom site.device.currentColor) k * n)) :
    site.Asks (command value request) ∧ site.device.Keeps (command value request).request := by
  refine ⟨⟨hname.symm, hcarries, hunderstands⟩, hone, fun _ m hm => ?_⟩
  rw [show (command value request).request = request from rfl, hnumber, Option.some.injEq] at hm
  exact hm ▸ hfits

/-- A white strip takes an intensity and then a colour. -/
theorem follows_strip :
    Machine.Always (Machine.total (next ⟨true, "ON", ""⟩)) Agrees
        (start firstNight (strip "ffffff") "strip") stripInputs ∧
      Machine.Along (Machine.total (next ⟨true, "ON", ""⟩)) (Shows ⟨true, "ON", ""⟩)
        (start firstNight (strip "ffffff") "strip") stripInputs := by
  have hcolor : (RGBPwm.new firstNight (strip "ffffff") "strip").currentColor = "ffffff" := by
    decide +kernel
  have hstart : StartsWhite firstNight (strip "ffffff") "strip" :=
    ⟨by decide +kernel, by rw [hcolor]; simp, by decide +kernel, by decide +kernel⟩
  refine follows_run ⟨true, "ON", ""⟩ firstNight (strip "ffffff") "strip" stripInputs hstart
    ⟨?_, fun after hafter => ⟨?_, fun _ _ => trivial⟩⟩
  · have hfull : (start firstNight (strip "ffffff") "strip").device.IsIntensity "FULL" :=
      ⟨by decide, by decide, by decide +kernel⟩
    exact kept_of_number (n := 255) (by decide +kernel) (by decide +kernel) hfull (Or.inr rfl)
      (by decide +kernel) (by decide +kernel)
  · obtain rfl := Option.some.inj hafter
    have hgreen : RGBPwm.IsColor "00ff00" := by decide
    exact kept_of_number (n := 255) (by decide +kernel) (by decide +kernel) hgreen (Or.inl rfl)
      (by decide +kernel) (by decide +kernel)

/-- A strip whose colour was saved as red starts with the numbers of white. -/
theorem not_follows_strip :
    ¬∀ (host : DeviceHost) (env : Env) (params : MParams) (n : String) (inputs : List LightInput),
      Machine.Along (Machine.total (next host)) Asks (start env params n) inputs →
        Machine.Always (Machine.total (next host)) Agrees (start env params n) inputs ∧
          Machine.Along (Machine.total (next host)) (Shows host) (start env params n) inputs := by
  intro h
  have hstart := (h ⟨true, "ON", ""⟩ firstNight (strip "ff0000") "strip" [] trivial).1
  exact absurd hstart.green (by decide +kernel)

end LightSite

end Hat
