/-! # Devices

Things with a name on every disk that hold nothing themselves.

* **`Device`** — the devices.
* **`Device.directories`, `Device.names`** — where devices stand, and under which names.
* **`Device.ofName?`** — the device with an absolute name. -/

namespace Mgol

/-- **The devices of a system.** What is written to `void` is gone, `full` has never room for
anything, and `output` and `errors` are the two streams of the console. -/
inductive Device where
  | void
  | full
  | output
  | errors
  deriving DecidableEq, Repr

namespace Device

/-- The directories that devices stand in, and those above them. -/
def directories : List (List String) :=
  [["dev"], ["dev", "fd"], ["proc"], ["proc", "self"], ["proc", "self", "fd"]]

/-- The streams of a run by their numbers in a directory. There is nothing to read from the
first. -/
def streamsIn (dir : List String) : List (List String × Device) :=
  [(dir ++ ["0"], void), (dir ++ ["1"], output), (dir ++ ["2"], errors)]

/-- **The absolute names of devices.** -/
def names : List (List String × Device) :=
  [(["dev", "null"], void), (["dev", "zero"], void), (["dev", "random"], void),
   (["dev", "urandom"], void), (["dev", "full"], full), (["dev", "stdin"], void),
   (["dev", "stdout"], output), (["dev", "stderr"], errors)]
    ++ streamsIn ["dev", "fd"] ++ streamsIn ["proc", "self", "fd"]

/-- **The device with an absolute name**, if there is one. -/
def ofName? (name : List String) : Option Device := names.lookup name

end Device

end Mgol
