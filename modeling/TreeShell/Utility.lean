import TreeShell.Utility.Diagnostics
import TreeShell.Utility.Nodes
import TreeShell.Utility.Settings
import TreeShell.Utility.Texts

/-!
# What commands do

The action behind every command.
-/

namespace TreeShell

/-- What a command does with what it is given; it exits with a code, or fails. -/
def Program.run : Program → Context → Action Int
  | .ls => Utility.ls
  | .cat => Utility.cat
  | .cp => Utility.cp
  | .mv => Utility.mv
  | .rm => Utility.rm
  | .mkdir => Utility.mkdir
  | .touch => Utility.touch
  | .stat => Utility.stat
  | .cd => Utility.cd
  | .pwd => Utility.pwd
  | .echo => Utility.echo
  | .whoami => Utility.whoami
  | .help => Utility.help
  | .clear => Utility.clear
  | .wc => Utility.wc
  | .grep => Utility.grep
  | .env => Utility.env
  | .export => Utility.exportOrList
  | .alias => Utility.aliasOrList
  | .unalias => Utility.unalias
  | .history => Utility.history
  | .dmesg => Utility.dmesg
  | .diagnostic d => d.run

end TreeShell
