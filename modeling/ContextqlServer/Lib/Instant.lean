import ContextqlServer.Lib.Isoformat

namespace ContextqlServer.Lib.Isoformat

def daysBeforeYear (year : Nat) : Nat :=
  (year - 1) * 365 + (year - 1) / 4 - (year - 1) / 100 + (year - 1) / 400

def daysBeforeMonth (year month : Nat) : Nat :=
  ((List.range (month - 1)).map (fun m => daysInMonth year (m + 1))).sum

namespace Fields

variable (f : Fields)

/-- `d.toordinal()`: January 1 of the year 1 is day 1. -/
def toordinal : Nat := daysBeforeYear f.year + daysBeforeMonth f.year f.month + f.day

def timeOfDay : Nat := ((f.hour * 60 + f.minute) * 60 + f.second) * 1000000 + f.microsecond

end Fields

/-- The instant that a datetime denotes, in microseconds; a naive one is in UTC. -/
def Datetime.instant (d : Datetime) : Int :=
  d.fields.toordinal * dayMicroseconds + d.fields.timeOfDay - d.fields.utcoffset.getD 0

end ContextqlServer.Lib.Isoformat
